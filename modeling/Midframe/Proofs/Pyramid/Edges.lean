import Midframe.Proofs.Pyramid.Inference

/-!
# Edges of built pyramids

Which blocks the levels of a built pyramid carry is decided by the channel counts alone. A level has
a horizontal block exactly if it has input and output channels, and a vertical block exactly if it
and its neighbour have output channels. So a level with a vertical block always has a neighbour, and
the encoder and the decoder of one list of output channels link the same pairs of levels.
-/

namespace Midframe

/-- What is known of a list of which the end from position `i` on is known. -/
theorem of_drop_eq_cons {α : Type} {l rest : List α} {i : Nat} {a : α}
    (h : l.drop i = a :: rest) : l[i]? = some a ∧ l.drop (i + 1) = rest := by
  constructor
  · rw [← Nat.add_zero i, ← List.getElem?_drop, h]
    rfl
  · rw [← List.drop_drop, h]
    rfl

/-- The output channels of the neighbour of a level, 0 where there is none. -/
def Direction.neighbourChannels (d : Direction) (outputs : List Nat) (level : Nat) : Nat :=
  ((d.neighbour? level outputs.length).bind (outputs[·]?)).getD 0

namespace Direction

variable {d : Direction}

/-- A neighbour with channels is a level. -/
theorem exists_of_neighbourChannels {outputs : List Nat} {level : Nat}
    (h : d.neighbourChannels outputs level ≠ 0) :
    ∃ neighbour, d.neighbour? level outputs.length = some neighbour ∧
      outputs[neighbour]? = some (d.neighbourChannels outputs level) := by
  unfold neighbourChannels at h ⊢
  cases hneighbour : d.neighbour? level outputs.length with
  | none =>
    rw [hneighbour] at h
    exact absurd rfl h
  | some neighbour =>
    rw [hneighbour] at h
    simp only [Option.bind_some] at h ⊢
    cases hchannels : outputs[neighbour]? with
    | none =>
      rw [hchannels] at h
      exact absurd rfl h
    | some c => exact ⟨neighbour, rfl, hchannels⟩

theorem neighbourChannels_of_neighbour {outputs : List Nat} {level neighbour : Nat}
    (h : d.neighbour? level outputs.length = some neighbour) :
    d.neighbourChannels outputs level = outputs[neighbour]?.getD 0 := by
  unfold neighbourChannels
  rw [h]
  rfl

theorem neighbour?_fineToCoarse (level levels : Nat) :
    fineToCoarse.neighbour? (level + 1) levels = some level := rfl

/-- The neighbour of a level is one of the two next to it. -/
theorem neighbour?_eq_some {level levels neighbour : Nat}
    (h : d.neighbour? level levels = some neighbour) :
    (d = fineToCoarse ∧ level = neighbour + 1) ∨
      (d = coarseToFine ∧ neighbour = level + 1 ∧ neighbour < levels) := by
  cases d with
  | fineToCoarse =>
    cases level with
    | zero => cases h
    | succ level =>
      cases h
      exact .inl ⟨rfl, rfl⟩
  | coarseToFine =>
    simp only [neighbour?] at h
    split at h
    · next hlt =>
      cases h
      exact .inr ⟨rfl, rfl, hlt⟩
    · cases h

end Direction

namespace Pyramid

variable {d : Direction}

/-! ## Levels one by one -/

section Levels

variable {scope : String} {horizontal vertical : SourcedSpec} {outputs : List Nat}

theorem buildLevels_length {level : Nat} {channels : List (Nat × Nat)} {levels : List Level}
    (h : buildLevels d scope horizontal vertical outputs level channels = .ok levels) :
    levels.length = channels.length := by
  induction channels generalizing level levels with
  | nil =>
    cases h
    rfl
  | cons c rest ih =>
    simp only [buildLevels, bind_eq_ok, pure_eq_ok] at h
    obtain ⟨l, -, tail, htail, rfl⟩ := h
    rw [List.length_cons, List.length_cons, ih htail]

/-- Every level is built from the channels of its position. -/
theorem buildLevels_getElem? {level : Nat} {channels : List (Nat × Nat)} {levels : List Level}
    (h : buildLevels d scope horizontal vertical outputs level channels = .ok levels) {i : Nat}
    {l : Level} (hl : levels[i]? = some l) :
    ∃ c, channels[i]? = some c ∧ Level.build scope horizontal vertical (level + i) c.1 c.2
      (d.neighbourChannels outputs (level + i)) = .ok l := by
  induction channels generalizing level levels i with
  | nil =>
    cases h
    cases hl
  | cons c rest ih =>
    simp only [buildLevels, bind_eq_ok, pure_eq_ok] at h
    obtain ⟨first, hfirst, tail, htail, rfl⟩ := h
    cases i with
    | zero =>
      cases hl
      exact ⟨c, rfl, hfirst⟩
    | succ i =>
      obtain ⟨c', hc', hbuild⟩ := ih htail hl
      rw [Nat.add_assoc, Nat.add_comm 1] at hbuild
      exact ⟨c', hc', hbuild⟩

end Levels

variable {scope horizontal vertical : String} {inputs outputs : List Nat} {p : Pyramid d}

theorem build_length (h : build d scope inputs outputs horizontal vertical = .ok p) :
    p.levels.length = outputs.length ∧ inputs.length = outputs.length := by
  obtain ⟨hlength, _, _, _, -, -, hlevels, rfl⟩ := build_eq_ok h
  refine ⟨?_, hlength⟩
  rw [buildLevels_length hlevels, List.length_zip, hlength, Nat.min_self]

/-- Every level of a built pyramid is built from its two channel counts and that of its
neighbour. -/
theorem build_getElem? (h : build d scope inputs outputs horizontal vertical = .ok p) {i : Nat}
    {l : Level} (hl : p.levels[i]? = some l) :
    ∃ hor ver input output, SourcedSpec.read horizontal = .ok hor ∧
      SourcedSpec.read vertical = .ok ver ∧ inputs[i]? = some input ∧ outputs[i]? = some output ∧
      Level.build scope hor ver i input output (d.neighbourChannels outputs i) = .ok l := by
  obtain ⟨-, hor, ver, levels, hhor, hver, hlevels, rfl⟩ := build_eq_ok h
  obtain ⟨⟨input, output⟩, hc, hbuild⟩ := buildLevels_getElem? hlevels hl
  obtain ⟨hinput, houtput⟩ := List.getElem?_zip_eq_some.mp hc
  rw [Nat.zero_add] at hbuild
  exact ⟨hor, ver, input, output, hhor, hver, hinput, houtput, hbuild⟩

end Pyramid

/-! ## Forms -/

/-- The level with the parameters of its blocks forgotten. -/
def Level.form (l : Level) : Level :=
  { l with horizontal := l.horizontal.map Block.form, vertical := l.vertical.map Block.form }

namespace Level

theorem form_reset (scope : String) (level : Nat) (l : Level) :
    (l.reset scope level).form = l.form := by
  obtain ⟨inputs, outputs, horizontal, vertical⟩ := l
  simp only [reset, form, Option.map_map, Function.comp_def, Block.form_reset]

end Level

namespace Pyramid

variable {d : Direction} {scope horizontal vertical : String} {inputs outputs : List Nat}
  {p : Pyramid d}

/-- The pyramid with all parameters forgotten. -/
def form (p : Pyramid d) : Pyramid d := { p with levels := p.levels.map Level.form }

theorem form_resetLevels (scope : String) (level : Nat) (levels : List Level) :
    (resetLevels scope level levels).map Level.form = levels.map Level.form := by
  induction levels generalizing level with
  | nil => rfl
  | cons l rest ih => exact congrArg₂ List.cons (l.form_reset scope level) (ih (level + 1))

theorem form_reset (p : Pyramid d) : p.reset.form = p.form :=
  congrArg (Pyramid.mk p.scope) (form_resetLevels p.scope 0 p.levels)

/-- The pyramid was built from these, whatever its parameters have become since. -/
def IsBuilt (p : Pyramid d) (scope : String) (inputs outputs : List Nat)
    (horizontal vertical : String) : Prop :=
  ∃ q, build d scope inputs outputs horizontal vertical = .ok q ∧ p.form = q.form

namespace IsBuilt

theorem of_build (h : build d scope inputs outputs horizontal vertical = .ok p) :
    p.IsBuilt scope inputs outputs horizontal vertical := ⟨p, h, rfl⟩

theorem of_form_eq {q : Pyramid d} (h : p.IsBuilt scope inputs outputs horizontal vertical)
    (heq : q.form = p.form) : q.IsBuilt scope inputs outputs horizontal vertical := by
  obtain ⟨built, hbuild, hform⟩ := h
  exact ⟨built, hbuild, heq.trans hform⟩

theorem length (h : p.IsBuilt scope inputs outputs horizontal vertical) :
    p.levels.length = outputs.length := by
  obtain ⟨q, hbuild, hform⟩ := h
  have hlevels : p.levels.map Level.form = q.levels.map Level.form := congrArg levels hform
  rw [← List.length_map (f := Level.form), hlevels, List.length_map]
  exact (build_length hbuild).1

/-- Every level has the form of one that is built from its two channel counts and that of its
neighbour. -/
theorem getElem? (h : p.IsBuilt scope inputs outputs horizontal vertical) {i : Nat} {l : Level}
    (hl : p.levels[i]? = some l) :
    ∃ hor ver input output built, SourcedSpec.read horizontal = .ok hor ∧
      SourcedSpec.read vertical = .ok ver ∧ inputs[i]? = some input ∧ outputs[i]? = some output ∧
      Level.build scope hor ver i input output (d.neighbourChannels outputs i) = .ok built ∧
      l.form = built.form := by
  obtain ⟨q, hbuild, hform⟩ := h
  have hlevels : p.levels.map Level.form = q.levels.map Level.form := congrArg levels hform
  have hl' : (q.levels.map Level.form)[i]? = some l.form := by
    rw [← hlevels, List.getElem?_map, hl]
    rfl
  rw [List.getElem?_map, Option.map_eq_some_iff] at hl'
  obtain ⟨built, hbuilt, hform⟩ := hl'
  obtain ⟨hor, ver, input, output, hhor, hver, hinput, houtput, hbuild⟩ :=
    build_getElem? hbuild hbuilt
  exact ⟨hor, ver, input, output, built, hhor, hver, hinput, houtput, hbuild, hform.symm⟩

end IsBuilt

/-! ## Presence of blocks -/

theorem edge_isSome {scope : String} {spec : SourcedSpec} {inputs outputs : Nat} {o : Option Block}
    (h : Level.edge scope spec inputs outputs = .ok o) :
    o.isSome = true ↔ inputs ≠ 0 ∧ outputs ≠ 0 := by
  rcases edge_eq_ok h with ⟨hzero, rfl⟩ | ⟨hinputs, houtputs, b, -, rfl⟩
  · constructor
    · intro hsome
      cases hsome
    · rintro ⟨hinputs, houtputs⟩
      exact absurd hzero (by simp [hinputs, houtputs])
  · constructor
    · intro _
      exact ⟨hinputs, houtputs⟩
    · intro _
      rfl

namespace IsBuilt

theorem horizontal_isSome (h : p.IsBuilt scope inputs outputs horizontal vertical) {i : Nat}
    {l : Level} (hl : p.levels[i]? = some l) :
    l.horizontal.isSome = true ↔ inputs[i]?.getD 0 ≠ 0 ∧ outputs[i]?.getD 0 ≠ 0 := by
  obtain ⟨_, _, _, _, built, -, -, hinput, houtput, hbuild, hform⟩ := h.getElem? hl
  have hedge : l.horizontal.map Block.form = built.horizontal.map Block.form :=
    congrArg Level.horizontal hform
  rw [hinput, houtput, ← Option.isSome_map, hedge, Option.isSome_map]
  exact edge_isSome (level_edges hbuild).1

theorem vertical_isSome (h : p.IsBuilt scope inputs outputs horizontal vertical) {i : Nat}
    {l : Level} (hl : p.levels[i]? = some l) :
    l.vertical.isSome = true ↔ d.neighbourChannels outputs i ≠ 0 ∧ outputs[i]?.getD 0 ≠ 0 := by
  obtain ⟨_, _, _, _, built, -, -, -, houtput, hbuild, hform⟩ := h.getElem? hl
  have hedge : l.vertical.map Block.form = built.vertical.map Block.form :=
    congrArg Level.vertical hform
  rw [houtput, ← Option.isSome_map, hedge, Option.isSome_map]
  exact edge_isSome (level_edges hbuild).2

end IsBuilt

/-- Every level with a vertical block has a neighbour. -/
def IsLinked (p : Pyramid d) : Prop :=
  ∀ i l, p.levels[i]? = some l → l.vertical.isSome = true →
    ∃ neighbour, d.neighbour? i p.levels.length = some neighbour

theorem IsBuilt.isLinked (h : p.IsBuilt scope inputs outputs horizontal vertical) :
    p.IsLinked := by
  intro i l hl hvertical
  obtain ⟨hneighbour, -⟩ := (h.vertical_isSome hl).mp hvertical
  obtain ⟨neighbour, hsome, -⟩ := Direction.exists_of_neighbourChannels hneighbour
  rw [h.length]
  exact ⟨neighbour, hsome⟩

end Pyramid

end Midframe
