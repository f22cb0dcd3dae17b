import Midframe.Proofs.Pyramid.Recursion

/-!
# Passes in place

A pass can work on one list of values. It visits the levels in its order, and each time takes the
value of the level out of the list, updates it with what the list holds at the neighbour, and puts
the result back. The list then holds finished values at the levels that were visited and inputs at
the others; since a neighbour is visited before a level, every visit reads a finished value. So the
loop computes the recursive definition, and so do the passes of encoders and decoders.
-/

namespace Midframe

namespace Direction

/-- The levels in the order of their visits. -/
def order : Direction → Nat → List Nat
  | fineToCoarse, levels => List.range levels
  | coarseToFine, levels => (List.range levels).reverse

variable {d : Direction}

theorem mem_order {level levels : Nat} : level ∈ d.order levels ↔ level < levels := by
  cases d with
  | fineToCoarse => exact List.mem_range
  | coarseToFine => exact List.mem_reverse.trans List.mem_range

theorem order_pairwise (levels : Nat) : (d.order levels).Pairwise d.IsBefore := by
  cases d with
  | fineToCoarse => exact List.pairwise_lt_range
  | coarseToFine => exact List.pairwise_reverse.mpr List.pairwise_lt_range

/-- What is known of the visits in front of a level. -/
theorem of_order_eq {level levels : Nat} {done rest : List Nat}
    (h : d.order levels = done ++ level :: rest) :
    level < levels ∧ level ∉ done ∧ ∀ j < levels, d.IsBefore j level → j ∈ done := by
  have hpairwise := order_pairwise (d := d) levels
  rw [h, List.pairwise_append] at hpairwise
  obtain ⟨-, hrest, hdone⟩ := hpairwise
  have hlevel : level ∈ d.order levels := by
    rw [h]
    simp
  refine ⟨mem_order.mp hlevel, fun hmem => ?_, fun j hj hbefore => ?_⟩
  · exact IsBefore.irrefl (hdone level hmem level List.mem_cons_self)
  · have hmem : j ∈ done ++ level :: rest := h ▸ mem_order.mpr hj
    rcases List.mem_append.mp hmem with hmem | hmem
    · exact hmem
    · rcases List.mem_cons.mp hmem with rfl | hmem
      · exact absurd hbefore IsBefore.irrefl
      · have hafter := (List.pairwise_cons.mp hrest).1 j hmem
        exact absurd (hbefore.trans hafter) IsBefore.irrefl

end Direction

namespace Pyramid

variable {τ : Type} [Flow τ] {d : Direction}

/-! ## The loop -/

/-- The contribution to a level, made of what the list holds at its neighbour. -/
def contributionIn (p : Pyramid d) (l : Level) (level : Nat) (values : List (Option τ)) :
    Except Fault (Option τ) :=
  match d.neighbour? level p.levels.length with
  | some neighbour => l.contribution p.scope level neighbour values[neighbour]?.join
  | none => .ok none

/-- One visit. The value of the level is taken out of the list, updated and put back. -/
def visitInPlace (p : Pyramid d) (fit : Nat → τ → Except Fault τ) (values : List (Option τ))
    (level : Nat) : Except Fault (List (Option τ)) :=
  match p.levels[level]? with
  | none => .ok values
  | some l => do
    let own ← l.ownValue values[level]?.join
    let values := values.set level none
    match ← p.contributionIn l level values with
    | some c =>
      let c ← fit level c
      let v ← Level.combine own c
      return values.set level (some v)
    | none => return values.set level own

/-- All visits, one after the other. -/
def runInPlace (p : Pyramid d) (fit : Nat → τ → Except Fault τ) (inputs : List (Option τ)) :
    Except Fault (List (Option τ)) :=
  (d.order p.levels.length).foldlM (p.visitInPlace fit) inputs

/-! ## The loop computes the recursion -/

variable {p : Pyramid d} {fit : Nat → τ → Except Fault τ} {inputs values : List (Option τ)}

/-- What the list holds after some visits: finished values at the levels visited, and the inputs
at all others. -/
structure IsUpTo (p : Pyramid d) (fit : Nat → τ → Except Fault τ) (inputs : List (Option τ))
    (done : List Nat) (values : List (Option τ)) : Prop where
  /-- There is one value for each level. -/
  length : values.length = p.levels.length
  /-- The levels visited are finished. -/
  finished : ∀ j ∈ done, ∃ v, values[j]? = some v ∧ p.settled fit inputs j = .ok v
  /-- The others are as they were. -/
  waiting : ∀ j, j ∉ done → values[j]? = inputs[j]?

/-- What a level reads in the list is the finished value of its neighbour: taking its own value out
leaves that one alone. -/
theorem IsUpTo.contributionIn_eq (linked : p.IsLinked) {done : List Nat}
    (hvalues : IsUpTo p fit inputs done values) {level : Nat} {l : Level}
    (hl : p.levels[level]? = some l)
    (hdone : ∀ j < p.levels.length, d.IsBefore j level → j ∈ done) :
    ∃ neighbour source, p.contributionIn l level (values.set level none)
        = l.contribution p.scope level neighbour source ∧
      ∀ m, d.neighbour? level p.levels.length = some m →
        m = neighbour ∧ p.settled fit inputs m = .ok source := by
  obtain ⟨hlevel, -⟩ := List.getElem?_eq_some_iff.mp hl
  unfold contributionIn
  cases hneighbour : d.neighbour? level p.levels.length with
  | none =>
    refine ⟨0, none, ?_, by simp⟩
    unfold Level.contribution
    cases hvertical : l.vertical with
    | none => rfl
    | some block =>
      obtain ⟨m, hm⟩ := linked level l hl (by rw [hvertical]; rfl)
      cases hneighbour.symm.trans hm
  | some neighbour =>
    have hbefore := Direction.isBefore_neighbour hneighbour
    have hlt := Direction.neighbour?_lt hlevel hneighbour
    obtain ⟨v, hv, hsettled⟩ := hvalues.finished neighbour (hdone neighbour hlt hbefore)
    have hne : level ≠ neighbour := by
      rintro rfl
      exact Direction.IsBefore.irrefl hbefore
    refine ⟨neighbour, v, ?_, fun m hm => ?_⟩
    · show Level.contribution _ _ _ _ (values.set level none)[neighbour]?.join = _
      rw [List.getElem?_set_ne hne, hv]
      rfl
    · cases hm
      exact ⟨rfl, hsettled⟩

/-- A visit puts the value of the recursion into the list. -/
theorem visitInPlace_eq (linked : p.IsLinked) {done : List Nat}
    (hvalues : IsUpTo p fit inputs done values) {level : Nat} (hlevel : level < p.levels.length)
    (hnew : level ∉ done) (hdone : ∀ j < p.levels.length, d.IsBefore j level → j ∈ done) :
    p.visitInPlace fit values level = (p.settled fit inputs level).map (values.set level ·) := by
  have hl : p.levels[level]? = some p.levels[level] := List.getElem?_eq_getElem hlevel
  obtain ⟨neighbour, source, hcontribution, hsource⟩ := hvalues.contributionIn_eq linked hl hdone
  rw [settled_eq_joined linked hl hsource, visitInPlace, hl]
  unfold Level.joined
  simp only [hcontribution, hvalues.waiting level hnew, List.set_set]
  -- Both sides are the same chain now, and the list is only written at its end.
  cases p.levels[level].ownValue inputs[level]?.join with
  | error e => rfl
  | ok own =>
    show (p.levels[level].contribution p.scope level neighbour source >>= _) =
      Except.map _ (p.levels[level].contribution p.scope level neighbour source >>= _)
    cases p.levels[level].contribution p.scope level neighbour source with
    | error e => rfl
    | ok contribution =>
      cases contribution with
      | none => rfl
      | some c =>
        show (fit level c >>= _) = Except.map _ (fit level c >>= _)
        cases fit level c with
        | error e => rfl
        | ok c =>
          show (Level.combine own c >>= _) = Except.map _ (some <$> Level.combine own c)
          cases Level.combine own c <;> rfl

/-- A visit finishes one more level. -/
theorem IsUpTo.visited {done : List Nat} (h : IsUpTo p fit inputs done values) {level : Nat}
    (hlevel : level < p.levels.length) {v : Option τ} (hv : p.settled fit inputs level = .ok v) :
    IsUpTo p fit inputs (done ++ [level]) (values.set level v) where
  length := by rw [List.length_set, h.length]
  finished := by
    intro j hj
    by_cases hjl : level = j
    · subst hjl
      exact ⟨v, List.getElem?_set_self (by rw [h.length]; exact hlevel), hv⟩
    · have hmem : j ∈ done := by simpa [Ne.symm hjl] using hj
      rw [List.getElem?_set_ne hjl]
      exact h.finished j hmem
  waiting := by
    intro j hj
    rw [List.mem_append, List.mem_singleton, not_or] at hj
    rw [List.getElem?_set_ne (Ne.symm hj.2)]
    exact h.waiting j hj.1

/-- The rest of the loop, once some levels are finished. -/
theorem foldlM_visitInPlace_settles (linked : p.IsLinked) {done rest : List Nat}
    (horder : d.order p.levels.length = done ++ rest)
    (hvalues : IsUpTo p fit inputs done values) :
    Settles d (p.settled fit inputs) 0 p.levels.length
      (rest.foldlM (p.visitInPlace fit) values) := by
  induction rest generalizing done values with
  | nil =>
    refine ⟨hvalues.length, fun i v hv => ?_⟩
    obtain ⟨hlt, -⟩ := List.getElem?_eq_some_iff.mp hv
    have hmem : i ∈ done ++ [] := horder ▸ Direction.mem_order.mpr (hvalues.length ▸ hlt)
    rw [List.append_nil] at hmem
    obtain ⟨v', hv', hsettled⟩ := hvalues.finished i hmem
    cases hv.symm.trans hv'
    rwa [Nat.zero_add]
  | cons level rest ih =>
    obtain ⟨hlevel, hnew, hdone⟩ := Direction.of_order_eq horder
    rw [List.foldlM_cons, visitInPlace_eq linked hvalues hlevel hnew hdone]
    cases hsettled : p.settled fit inputs level with
    | error e =>
      refine ⟨level, Nat.zero_le _, by omega, hsettled, fun j _ hj hbefore => ?_⟩
      obtain ⟨v, -, hv⟩ := hvalues.finished j (hdone j (by omega) hbefore)
      exact ⟨v, hv⟩
    | ok v =>
      refine ih ?_ (hvalues.visited hlevel hsettled)
      rw [horder, List.append_assoc, List.singleton_append]

theorem runInPlace_settles (linked : p.IsLinked) (hlength : inputs.length = p.levels.length) :
    Settles d (p.settled fit inputs) 0 p.levels.length (p.runInPlace fit inputs) :=
  foldlM_visitInPlace_settles linked (List.nil_append _).symm ⟨hlength, by simp, fun _ _ => rfl⟩

/-! ## The passes -/

/-- Blocks stand where there are channels on both of their sides, and nowhere else. -/
structure HasEdges (p : Pyramid d) (inputs outputs : List Nat) : Prop where
  /-- The sides of a horizontal block are the input and the output of its level. -/
  horizontal : ∀ (i : Nat) (l : Level), p.levels[i]? = some l →
    (l.horizontal.isSome = true ↔ inputs[i]?.getD 0 ≠ 0 ∧ outputs[i]?.getD 0 ≠ 0)
  /-- Those of a vertical block are the outputs of its level and of the neighbour. -/
  vertical : ∀ (i : Nat) (l : Level), p.levels[i]? = some l →
    (l.vertical.isSome = true ↔ outputs[i]?.getD 0 ≠ 0 ∧
      ∃ j, d.neighbour? i p.levels.length = some j ∧ outputs[j]?.getD 0 ≠ 0)

theorem IsBuilt.hasEdges {scope horizontal vertical : String} {inputs outputs : List Nat}
    {p : Pyramid d} (h : p.IsBuilt scope inputs outputs horizontal vertical) :
    p.HasEdges inputs outputs where
  horizontal := fun _ _ hl => h.horizontal_isSome hl
  vertical := by
    intro i l hl
    rw [h.vertical_isSome hl, h.length, and_comm, and_congr_right_iff]
    intro _
    constructor
    · intro hchannels
      obtain ⟨j, hj, houtput⟩ := Direction.exists_of_neighbourChannels hchannels
      exact ⟨j, hj, by rw [houtput]; exact hchannels⟩
    · rintro ⟨j, hj, houtput⟩
      rw [Direction.neighbourChannels_of_neighbour hj]
      exact houtput

/-- The passes of built encoders and decoders are the loop in place, and leave what the recursion
gives: all values, or the fault of the lowest failing level of an encoder and of the highest one of
a decoder. The value of a level of an encoder depends on the inputs of that level and those below
it only, the value of a level of a decoder on the inputs and recorded shapes of that level and
those above it. -/
theorem passes_solve_equations :
    (∀ {scope : String} {inputs outputs : List Nat} {horizontal vertical : String} {p : Encoder},
      p.IsBuilt scope inputs outputs horizontal vertical →
      p.HasEdges inputs outputs ∧
      ∀ {τ : Type} [Flow τ] (values : List (Option τ)) (table : ShapeTable),
        values.length = p.levels.length →
        (p.encode values table).1 = p.runInPlace untouched values ∧
        IsSolution .fineToCoarse (p.encoded values) p.levels.length (p.encode values table).1 ∧
        ∀ i values', (∀ j ≤ i, values'[j]? = values[j]?) →
          p.encoded values' i = p.encoded values i) ∧
    (∀ {scope : String} {inputs outputs : List Nat} {horizontal vertical : String} {p : Decoder},
      p.IsBuilt scope inputs outputs horizontal vertical →
      p.HasEdges inputs outputs ∧
      ∀ {τ : Type} [Flow τ] (values : List (Option τ)) (table : ShapeTable),
        values.length = p.levels.length →
        p.decode values table = p.runInPlace (recalled table) values ∧
        IsSolution .coarseToFine (p.decoded values table) p.levels.length
          (p.decode values table) ∧
        ∀ i values' (table' : ShapeTable),
          (∀ j ≥ i, values'[j]? = values[j]? ∧ table'.get? j = table.get? j) →
          p.decoded values' table' i = p.decoded values table i) := by
  constructor
  · intro scope inputs outputs horizontal vertical p hbuild
    have hlinked := hbuild.isLinked
    refine ⟨hbuild.hasEdges, fun {τ} _ values table hlength => ?_⟩
    have hpass := encode_settles hlinked hlength table
    refine ⟨hpass.unique (runInPlace_settles hlinked hlength), hpass.isSolution, ?_⟩
    intro i values' hagree
    refine settled_congr (fun j hj => hagree j ?_) (fun _ _ _ _ _ => rfl)
    rcases hj with rfl | hj
    · exact Nat.le_refl _
    · exact Nat.le_of_lt hj
  · intro scope inputs outputs horizontal vertical p hbuild
    have hlinked := hbuild.isLinked
    refine ⟨hbuild.hasEdges, fun {τ} _ values table hlength => ?_⟩
    have hpass := decode_settles hlinked hlength table
    refine ⟨hpass.unique (runInPlace_settles hlinked hlength), hpass.isSolution, ?_⟩
    intro i values' table' hagree
    have hle {j : Nat} (hj : j = i ∨ Direction.coarseToFine.IsBefore j i) : i ≤ j := by
      rcases hj with rfl | hj
      · exact Nat.le_refl _
      · exact Nat.le_of_lt hj
    refine settled_congr (fun j hj => (hagree j (hle hj)).1) (fun j _ hj _ _ => ?_)
    funext c
    unfold recalled
    rw [(hagree j (hle hj)).2]

/-- Two levels over three rows and five columns: down, and up again from the coarsest one, where a
row and a column too many are dropped. -/
theorem passes_solve_equations_odd : ∃ (encoder : Encoder) (decoder : Decoder),
    build .fineToCoarse "encoder" [1, 0] [1, 2] "conv(1)-conv(1)" "sconv(1)-conv(1)"
      = .ok encoder ∧
    encoder.runInPlace untouched [some (⟨1, 1, 3, 5⟩ : Shape), none]
      = .ok [some ⟨1, 1, 3, 5⟩, some ⟨1, 2, 2, 3⟩] ∧
    encoder.encoded [some (⟨1, 1, 3, 5⟩ : Shape), none] 1 = .ok (some ⟨1, 2, 2, 3⟩) ∧
    build .coarseToFine "decoder" [1, 2] [1, 2] "conv(1)-conv(1)" "up(nearest)-conv(1)-conv(1)"
      = .ok decoder ∧
    decoder.runInPlace (recalled (Keyed.empty.insert 0 ⟨1, 1, 3, 5⟩))
      [none, some (⟨1, 2, 2, 3⟩ : Shape)] = .ok [some ⟨1, 1, 3, 5⟩, some ⟨1, 2, 2, 3⟩] ∧
    decoder.decoded [none, some (⟨1, 2, 2, 3⟩ : Shape)] (Keyed.empty.insert 0 ⟨1, 1, 3, 5⟩) 0
      = .ok (some ⟨1, 1, 3, 5⟩) := by
  obtain ⟨encoder, hbuild, hrun⟩ := exists_eq_ok_of_map (show
      (build .fineToCoarse "encoder" [1, 0] [1, 2] "conv(1)-conv(1)"
        "sconv(1)-conv(1)").toOption.map
      (fun (p : Encoder) => (p.levels.length,
        (p.encode [some (⟨1, 1, 3, 5⟩ : Shape), none] Keyed.empty).1.toOption))
      = some (2, some [some ⟨1, 1, 3, 5⟩, some ⟨1, 2, 2, 3⟩]) by decide +kernel)
  obtain ⟨decoder, hbuild', hrun'⟩ := exists_eq_ok_of_map (show
      (build .coarseToFine "decoder" [1, 2] [1, 2] "conv(1)-conv(1)"
        "up(nearest)-conv(1)-conv(1)").toOption.map
      (fun (p : Decoder) => (p.levels.length,
        (p.decode [none, some (⟨1, 2, 2, 3⟩ : Shape)]
          (Keyed.empty.insert 0 ⟨1, 1, 3, 5⟩)).toOption))
      = some (2, some [some ⟨1, 1, 3, 5⟩, some ⟨1, 2, 2, 3⟩]) by decide +kernel)
  simp only [Prod.mk.injEq] at hrun hrun'
  have hencode := eq_ok_of_toOption hrun.2
  have hdecode := eq_ok_of_toOption hrun'.2
  obtain ⟨hloop, hsolution, -⟩ := (passes_solve_equations.1 (.of_build hbuild)).2
    [some (⟨1, 1, 3, 5⟩ : Shape), none] Keyed.empty hrun.1.symm
  obtain ⟨hloop', hsolution', -⟩ := (passes_solve_equations.2 (.of_build hbuild')).2
    [none, some (⟨1, 2, 2, 3⟩ : Shape)] (Keyed.empty.insert 0 ⟨1, 1, 3, 5⟩) hrun'.1.symm
  exact ⟨encoder, decoder, hbuild, hloop.symm.trans hencode,
    ((hsolution.ok_iff _).mp hencode).2 1 _ rfl, hbuild', hloop'.symm.trans hdecode,
    ((hsolution'.ok_iff _).mp hdecode).2 0 _ rfl⟩

end Pyramid

end Midframe
