import Midframe.Proofs.Pyramid.Inference

/-!
# What inference through pyramids leaves out

Where the inputs of a pass have rows and columns, so do all values of its levels, all shapes it
records and all shapes that its blocks are applied to. What a pass over batches needs besides the
pass over shapes is then nothing but the reach of its mirror images.
-/

namespace Midframe

/-- A shape of `n` batch entries with rows and columns. -/
structure Shape.IsBatchOf (s : Shape) (n : Nat) : Prop where
  /-- There are `n` entries. -/
  batch : s.batch = n
  /-- There are rows and columns. -/
  spatial : s.IsSpatial

/-- A block is regular, is applied to a shape with rows and columns, and gives a shape. -/
structure Application.IsProper (a : Application) : Prop where
  /-- The block is regular. -/
  regular : a.block.IsRegular
  /-- There are rows and columns. -/
  spatial : a.shape.IsSpatial
  /-- The inference succeeds. -/
  result : ∃ t, a.block.outputShape a.shape = .ok t

theorem Application.IsProper.readable_iff {a : Application} (h : a.IsProper) (exact : a.IsExact) :
    a.Readable ↔ a.MirrorsFit := by
  obtain ⟨t, ht⟩ := h.result
  exact Block.readable_iff h.regular h.spatial exact ht

namespace Level

variable {n : Nat}

theorem apply_isBatchOf {b : Block} (regular : b.IsRegular) {s : Shape} {o : Option Shape}
    (filled : s.IsBatchOf n) (h : (Flow.apply b s).map some = .ok o) :
    Application.IsProper ⟨b, s⟩ ∧ ∀ t ∈ o, t.IsBatchOf n := by
  obtain ⟨t, ht, rfl⟩ := map_eq_ok.mp h
  refine ⟨⟨regular, filled.spatial, t, ht⟩, fun u hu => ?_⟩
  cases hu
  exact ⟨(Block.outputShape_batch ht).trans filled.batch,
    Block.outputShape_isSpatial regular filled.spatial ht⟩

theorem ownValue_isBatchOf {l : Level} (regular : l.IsRegular) {value o : Option Shape}
    (filled : ∀ s ∈ value, s.IsBatchOf n) (h : l.ownValue value = .ok o) :
    (∀ a ∈ Application.ofEdge l.horizontal value, a.IsProper) ∧ ∀ t ∈ o, t.IsBatchOf n := by
  unfold ownValue at h
  cases hblock : l.horizontal with
  | none =>
    rw [hblock] at h
    cases h
    exact ⟨by simp [Application.ofEdge], filled⟩
  | some b =>
    rw [hblock] at h
    cases value with
    | none =>
      cases h
      exact ⟨by simp [Application.ofEdge], filled⟩
    | some s =>
      obtain ⟨hproper, ho⟩ := apply_isBatchOf (regular.horizontal b hblock) (filled s rfl) h
      exact ⟨by simpa [Application.ofEdge] using hproper, ho⟩

theorem contribution_isBatchOf {l : Level} (regular : l.IsRegular) {scope : String}
    {level neighbour : Nat} {source o : Option Shape} (filled : ∀ s ∈ source, s.IsBatchOf n)
    (h : l.contribution scope level neighbour source = .ok o) :
    (∀ a ∈ Application.ofEdge l.vertical source, a.IsProper) ∧ ∀ t ∈ o, t.IsBatchOf n := by
  unfold contribution at h
  cases hblock : l.vertical with
  | none =>
    rw [hblock] at h
    cases h
    exact ⟨by simp [Application.ofEdge], by simp⟩
  | some b =>
    rw [hblock] at h
    cases source with
    | none => cases h
    | some s =>
      obtain ⟨hproper, ho⟩ := apply_isBatchOf (regular.vertical b hblock) (filled s rfl) h
      exact ⟨by simpa [Application.ofEdge] using hproper, ho⟩

theorem combine_isBatchOf {value : Option Shape} {c t : Shape} (filled : c.IsBatchOf n)
    (h : combine value c = .ok t) : t.IsBatchOf n := by
  cases value with
  | none =>
    cases h
    exact filled
  | some s =>
    obtain ⟨-, rfl⟩ := Shape.add_eq_ok.mp h
    exact filled

theorem reconcile_isBatchOf {level : Nat} {c expected t : Shape} (filled : c.IsBatchOf n)
    (wanted : expected.IsSpatial) (h : reconcile level c expected = .ok t) : t.IsBatchOf n := by
  obtain ⟨fine, -, h⟩ := bind_eq_ok.mp h
  split at h
  · split at h
    · cases h
      exact filled
    · simp only [Flow.crop, Shape.crop] at h
      split at h
      · cases h
      · cases h
        exact ⟨filled.batch, wanted⟩
  · cases h

theorem joined_isBatchOf {l : Level} (regular : l.IsRegular) {scope : String}
    {level neighbour : Nat} {fit : Option Shape → Shape → Except Fault (Option Shape)}
    (hfit : ∀ v c o, c.IsBatchOf n → fit v c = .ok o → ∀ t ∈ o, t.IsBatchOf n)
    {input source o : Option Shape} (hinput : ∀ s ∈ input, s.IsBatchOf n)
    (hsource : ∀ s ∈ source, s.IsBatchOf n)
    (h : l.joined scope level neighbour fit input source = .ok o) :
    (∀ a ∈ l.applications input source, a.IsProper) ∧ ∀ t ∈ o, t.IsBatchOf n := by
  obtain ⟨v, c, hv, hc, ho⟩ := joined_eq_ok.mp h
  obtain ⟨hproper, hvs⟩ := ownValue_isBatchOf regular hinput hv
  obtain ⟨hproper', hcs⟩ := contribution_isBatchOf regular hsource hc
  refine ⟨List.forall_mem_append.mpr ⟨hproper, hproper'⟩, ?_⟩
  cases c with
  | none =>
    cases ho
    exact hvs
  | some c => exact hfit v c o (hcs c rfl) ho

theorem encode_isBatchOf {l : Level} (regular : l.IsRegular) {scope : String} {level : Nat}
    {input below o : Option Shape} (hinput : ∀ s ∈ input, s.IsBatchOf n)
    (hbelow : ∀ s ∈ below, s.IsBatchOf n) (h : l.encode scope level input below = .ok o) :
    (∀ a ∈ l.applications input below, a.IsProper) ∧ ∀ t ∈ o, t.IsBatchOf n := by
  refine joined_isBatchOf regular (fun v c o hc hfit => ?_) hinput hbelow h
  obtain ⟨t, ht, rfl⟩ := functor_map_eq_ok.mp hfit
  intro u hu
  cases hu
  exact combine_isBatchOf hc ht

theorem decode_isBatchOf {l : Level} (regular : l.IsRegular) {scope : String}
    {table : ShapeTable} {level : Nat} {input above o : Option Shape}
    (recorded : ∀ e, table.get? level = some e → e.IsSpatial)
    (hinput : ∀ s ∈ input, s.IsBatchOf n) (habove : ∀ s ∈ above, s.IsBatchOf n)
    (h : l.decode scope table level input above = .ok o) :
    (∀ a ∈ l.applications input above, a.IsProper) ∧ ∀ t ∈ o, t.IsBatchOf n := by
  rw [decode_eq_joined] at h
  refine joined_isBatchOf regular (fun v c o hc hfit => ?_) hinput habove h
  unfold fitted at hfit
  cases htable : table.get? level with
  | none =>
    rw [htable] at hfit
    cases hfit
  | some expected =>
    rw [htable] at hfit
    obtain ⟨r, hr, hfit⟩ := bind_eq_ok.mp hfit
    obtain ⟨t, ht, rfl⟩ := functor_map_eq_ok.mp hfit
    intro u hu
    cases hu
    exact combine_isBatchOf (reconcile_isBatchOf hc (recorded expected htable) hr) ht

end Level

/-! ## Tables -/

/-- All recorded shapes have rows and columns. -/
def ShapeTable.IsSpatial (table : ShapeTable) : Prop := ∀ e ∈ table.entries, e.2.IsSpatial

theorem ShapeTable.IsSpatial.insert {table : ShapeTable} (h : table.IsSpatial) (level : Nat)
    {s : Shape} (hs : s.IsSpatial) : ShapeTable.IsSpatial (Keyed.insert table level s) := by
  intro e he
  rcases Keyed.mem_insertEntry he with rfl | he
  · exact hs
  · exact h e he

theorem ShapeTable.IsSpatial.get? {table : ShapeTable} (h : table.IsSpatial) {level : Nat}
    {s : Shape} (hs : Keyed.get? table level = some s) : s.IsSpatial := by
  obtain ⟨e, he, rfl⟩ := Option.map_eq_some_iff.mp hs
  exact h e (List.mem_of_find?_eq_some he)

namespace Pyramid

variable {n : Nat}

theorem recorded_isSpatial {table : ShapeTable} (h : table.IsSpatial) (level : Nat)
    {value : Option Shape} (hvalue : ∀ s ∈ value, s.IsSpatial) :
    ShapeTable.IsSpatial (recorded table level value) := by
  cases value with
  | none => exact h
  | some s => exact h.insert level (hvalue s rfl)

/-- What holds of a pass of an encoder over shapes with rows and columns. -/
theorem encodeLevels_isBatchOf {levels : List (Level × Option Shape)}
    (regular : ∀ p ∈ levels, p.1.IsRegular) (filled : ∀ p ∈ levels, ∀ s ∈ p.2, s.IsBatchOf n)
    {scope : String} {level : Nat} {below : Option Shape} (hbelow : ∀ s ∈ below, s.IsBatchOf n)
    {table left : ShapeTable} (htable : table.IsSpatial) {values : List (Option Shape)}
    (h : encodeLevels scope level below table levels = (.ok values, left)) :
    (∀ a ∈ encodeApplications scope level below levels, a.IsProper) ∧
      (∀ v ∈ values, ∀ s ∈ v, s.IsBatchOf n) ∧ left.IsSpatial := by
  induction levels generalizing level below table values with
  | nil =>
    cases h
    exact ⟨by simp [encodeApplications], by simp, htable⟩
  | cons p rest ih =>
    obtain ⟨l, input⟩ := p
    obtain ⟨value, tail, hvalue, hrun, rfl⟩ := encodeLevels_cons.mp h
    obtain ⟨hproper, hfilled⟩ := Level.encode_isBatchOf (regular _ List.mem_cons_self)
      (filled _ List.mem_cons_self) hbelow hvalue
    have hrecorded : ∀ s ∈ value.map Flow.shape, s.IsSpatial := by
      intro s hs
      obtain ⟨t, ht, rfl⟩ := Option.mem_map.mp hs
      exact (hfilled t ht).spatial
    obtain ⟨hproper', hfilled', hleft⟩ := ih (fun q hq => regular q (List.mem_cons_of_mem _ hq))
      (fun q hq => filled q (List.mem_cons_of_mem _ hq)) hfilled
      (recorded_isSpatial htable level hrecorded) hrun
    refine ⟨?_, List.forall_mem_cons.mpr ⟨hfilled, hfilled'⟩, hleft⟩
    simp only [encodeApplications, hvalue]
    exact List.forall_mem_append.mpr ⟨hproper, hproper'⟩

/-- What holds of a pass of a decoder over shapes with rows and columns. -/
theorem decodeLevels_isBatchOf {levels : List (Level × Option Shape)}
    (regular : ∀ p ∈ levels, p.1.IsRegular) (filled : ∀ p ∈ levels, ∀ s ∈ p.2, s.IsBatchOf n)
    {scope : String} {table : ShapeTable} (htable : table.IsSpatial) {level : Nat}
    {values : List (Option Shape)} (h : decodeLevels scope table level levels = .ok values) :
    (∀ a ∈ decodeApplications scope table level levels, a.IsProper) ∧
      ∀ v ∈ values, ∀ s ∈ v, s.IsBatchOf n := by
  induction levels generalizing level values with
  | nil =>
    cases h
    exact ⟨by simp [decodeApplications], by simp⟩
  | cons p rest ih =>
    obtain ⟨l, input⟩ := p
    obtain ⟨value, tail, hrun, hvalue, rfl⟩ := decodeLevels_cons.mp h
    obtain ⟨hproper, hfilled⟩ := ih (fun q hq => regular q (List.mem_cons_of_mem _ hq))
      (fun q hq => filled q (List.mem_cons_of_mem _ hq)) hrun
    have habove : ∀ s ∈ tail.head?.join, s.IsBatchOf n := by
      cases tail with
      | nil => simp
      | cons v tail => exact hfilled v List.mem_cons_self
    obtain ⟨hproper', hfilled'⟩ := Level.decode_isBatchOf (regular _ List.mem_cons_self)
      (fun _ he => htable.get? he) (filled _ List.mem_cons_self) habove hvalue
    refine ⟨?_, List.forall_mem_cons.mpr ⟨hfilled', hfilled⟩⟩
    simp only [decodeApplications, hrun]
    exact List.forall_mem_append.mpr ⟨hproper, hproper'⟩

theorem IsRegular.zip_shapes {d : Direction} {p : Pyramid d} (regular : p.IsRegular)
    (inputs : List (Option Shape)) : ∀ q ∈ p.levels.zip inputs, q.1.IsRegular :=
  fun _ hq => regular _ (List.of_mem_zip hq).1

theorem encode_isBatchOf {p : Encoder} (regular : p.IsRegular) {inputs : List (Option Shape)}
    (filled : ∀ v ∈ inputs, ∀ s ∈ v, s.IsBatchOf n) {table left : ShapeTable}
    (htable : table.IsSpatial) {values : List (Option Shape)}
    (h : p.encode inputs table = (.ok values, left)) :
    (∀ a ∈ p.encoderApplications inputs, a.IsProper) ∧
      (∀ v ∈ values, ∀ s ∈ v, s.IsBatchOf n) ∧ left.IsSpatial := by
  unfold encode at h
  split at h
  · cases h
  · exact encodeLevels_isBatchOf (regular.zip_shapes inputs)
      (fun q hq => filled _ (List.of_mem_zip hq).2) (by simp) htable h

theorem decode_isBatchOf {p : Decoder} (regular : p.IsRegular) {inputs : List (Option Shape)}
    (filled : ∀ v ∈ inputs, ∀ s ∈ v, s.IsBatchOf n) {table : ShapeTable}
    (htable : table.IsSpatial) {values : List (Option Shape)}
    (h : p.decode inputs table = .ok values) :
    (∀ a ∈ p.decoderApplications inputs table, a.IsProper) ∧
      ∀ v ∈ values, ∀ s ∈ v, s.IsBatchOf n := by
  obtain ⟨-, -, h⟩ := bind_eq_ok.mp h
  exact decodeLevels_isBatchOf (regular.zip_shapes inputs)
    (fun q hq => filled _ (List.of_mem_zip hq).2) htable h

end Pyramid

end Midframe
