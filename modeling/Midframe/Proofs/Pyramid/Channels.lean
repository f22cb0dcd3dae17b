import Midframe.Proofs.Pyramid.Edges

/-!
# Channels through pyramids

The channel lists of a pyramid say what the blocks of its levels take and give. What a block takes
is what they say. What it gives is what they say only if no shuffle follows the last convolution of
its specification: a shuffle there divides the count once more by four, and nothing compares the
result with the list. Such a pyramid can be built, and fails as soon as a value of one of its levels
reaches the vertical block of the next one.
-/

namespace Midframe

namespace Pyramid

variable {d : Direction}

/-- The blocks of all levels take and give what the channel lists say, and contributions have the
channels that the next vertical block was made for. -/
structure FollowsChannels (p : Pyramid d) (inputs outputs : List Nat) : Prop where
  /-- A horizontal block goes from the inputs of its level to the outputs. -/
  horizontal : ∀ (i : Nat) (l : Level) (b : Block), p.levels[i]? = some l → l.horizontal = some b →
    b.Maps (inputs[i]?.getD 0) (outputs[i]?.getD 0)
  /-- A vertical block goes from the outputs of the neighbour to those of its level. -/
  vertical : ∀ (i j : Nat) (l : Level) (b : Block), p.levels[i]? = some l → l.vertical = some b →
    d.neighbour? i p.levels.length = some j → b.Maps (outputs[j]?.getD 0) (outputs[i]?.getD 0)
  /-- What one vertical block gives is what the next one takes. -/
  handed : ∀ (i j : Nat) (l m : Level) (b c : Block), p.levels[i]? = some l →
    p.levels[j]? = some m → d.neighbour? i p.levels.length = some j → l.vertical = some b →
    m.vertical = some c → ∀ x y, c.forward x = .ok y → y.shape.channels = b.inputs

/-- The channels of the block of an edge, whatever its parameters become. -/
theorem edge_maps {scope : String} {spec : SourcedSpec} {inputs outputs : Nat} {o : Option Block}
    (h : Level.edge scope spec inputs outputs = .ok o) {b : Block}
    (hform : o.map Block.form = some b.form) :
    ∃ n, n * 4 ^ spec.spec.trailingShuffles = outputs ∧ b.Maps inputs n := by
  obtain ⟨built, rfl, hbuilt⟩ := Option.map_eq_some_iff.mp hform
  rcases edge_eq_ok h with ⟨-, hnone⟩ | ⟨-, -, b', hbuild, hsome⟩
  · cases hnone
  · cases hsome
    obtain ⟨compiled, hcompiled, hcform⟩ := Block.build_eq_ok hbuild
    obtain ⟨n, hn, hmaps⟩ := Block.compile_maps hcompiled
    exact ⟨n, hn, hmaps b (hbuilt.symm.trans hcform)⟩

variable {scope horizontal vertical : String} {inputs outputs : List Nat} {p : Pyramid d}

/-- What the blocks of a built pyramid take and give. -/
theorem IsBuilt.maps (h : p.IsBuilt scope inputs outputs horizontal vertical) :
    ∃ hor ver, SourcedSpec.read horizontal = .ok hor ∧ SourcedSpec.read vertical = .ok ver ∧
      ∀ (i : Nat) (l : Level), p.levels[i]? = some l →
        (∀ b, l.horizontal = some b → ∃ n, n * 4 ^ hor.spec.trailingShuffles = outputs[i]?.getD 0 ∧
          b.Maps (inputs[i]?.getD 0) n) ∧
        (∀ b, l.vertical = some b → ∃ n, n * 4 ^ ver.spec.trailingShuffles = outputs[i]?.getD 0 ∧
          b.Maps (d.neighbourChannels outputs i) n) := by
  obtain ⟨q, hbuild, -⟩ := id h
  obtain ⟨-, hor, ver, -, hhor, hver, -, -⟩ := build_eq_ok hbuild
  refine ⟨hor, ver, hhor, hver, fun i l hl => ?_⟩
  obtain ⟨hor', ver', input, output, built, hhor', hver', hinput, houtput, hlevel, hform⟩ :=
    h.getElem? hl
  cases hhor.symm.trans hhor'
  cases hver.symm.trans hver'
  have hhorizontal : l.horizontal.map Block.form = built.horizontal.map Block.form :=
    congrArg Level.horizontal hform
  have hvertical : l.vertical.map Block.form = built.vertical.map Block.form :=
    congrArg Level.vertical hform
  obtain ⟨hedge, hedge'⟩ := level_edges hlevel
  rw [hinput, houtput]
  refine ⟨fun b hb => ?_, fun b hb => ?_⟩
  · rw [hb] at hhorizontal
    exact edge_maps hedge hhorizontal.symm
  · rw [hb] at hvertical
    exact edge_maps hedge' hvertical.symm

/-- A block that gives what the lists say has no shuffle behind its last convolution. -/
theorem trailingShuffles_eq_zero {b : Block} {inputs inputs' n m k : Nat} (h : b.Maps inputs n)
    (h' : b.Maps inputs' m) (hn : n * 4 ^ k = m) (hm : m ≠ 0) : k = 0 := by
  obtain rfl : n = m := h.outputs_eq.symm.trans h'.outputs_eq
  have hpow : 4 ^ k = 1 :=
    Nat.eq_of_mul_eq_mul_left (Nat.pos_of_ne_zero hm) (by rw [hn, Nat.mul_one])
  exact (Nat.pow_eq_one.mp hpow).resolve_left (by decide)

/-- Where no shuffle is in the way, the lists are followed. -/
theorem IsBuilt.followsChannels (h : p.IsBuilt scope inputs outputs horizontal vertical)
    {hor ver : SourcedSpec} (hhor : SourcedSpec.read horizontal = .ok hor)
    (hver : SourcedSpec.read vertical = .ok ver)
    (hhorizontal : (∃ l ∈ p.levels, l.horizontal.isSome = true) → hor.spec.trailingShuffles = 0)
    (hvertical : (∃ l ∈ p.levels, l.vertical.isSome = true) → ver.spec.trailingShuffles = 0) :
    p.FollowsChannels inputs outputs := by
  obtain ⟨_, _, hhor', hver', hmaps⟩ := h.maps
  cases hhor.symm.trans hhor'
  cases hver.symm.trans hver'
  have hup (i j : Nat) (l : Level) (b : Block) (hl : p.levels[i]? = some l)
      (hb : l.vertical = some b) (hj : d.neighbour? i p.levels.length = some j) :
      b.Maps (outputs[j]?.getD 0) (outputs[i]?.getD 0) := by
    obtain ⟨n, hn, hmap⟩ := (hmaps i l hl).2 b hb
    rw [hvertical ⟨l, List.mem_of_getElem? hl, by rw [hb]; rfl⟩, Nat.pow_zero, Nat.mul_one] at hn
    rw [← Direction.neighbourChannels_of_neighbour (h.length ▸ hj), ← hn]
    exact hmap
  refine ⟨fun i l b hl hb => ?_, hup, fun i j l m b c hl hm hj hb hc x y hxy => ?_⟩
  · obtain ⟨n, hn, hmap⟩ := (hmaps i l hl).1 b hb
    rw [hhorizontal ⟨l, List.mem_of_getElem? hl, by rw [hb]; rfl⟩, Nat.pow_zero, Nat.mul_one] at hn
    rw [← hn]
    exact hmap
  · obtain ⟨k, hk⟩ := h.isLinked j m hm (by rw [hc]; rfl)
    have hgives := ((hup j k m c hm hc hk).forward x y hxy).2
    rw [hgives, (hup i j l b hl hb hj).inputs_eq]

/-- Where the lists are followed, no shuffle is in the way. -/
theorem FollowsChannels.trailingShuffles (hfollows : p.FollowsChannels inputs outputs)
    (h : p.IsBuilt scope inputs outputs horizontal vertical) {hor ver : SourcedSpec}
    (hhor : SourcedSpec.read horizontal = .ok hor) (hver : SourcedSpec.read vertical = .ok ver) :
    ((∃ l ∈ p.levels, l.horizontal.isSome = true) → hor.spec.trailingShuffles = 0) ∧
      ((∃ l ∈ p.levels, l.vertical.isSome = true) → ver.spec.trailingShuffles = 0) := by
  obtain ⟨_, _, hhor', hver', hmaps⟩ := h.maps
  cases hhor.symm.trans hhor'
  cases hver.symm.trans hver'
  constructor
  · rintro ⟨l, hmem, hsome⟩
    obtain ⟨i, hl⟩ := List.mem_iff_getElem?.mp hmem
    obtain ⟨b, hb⟩ := Option.isSome_iff_exists.mp hsome
    obtain ⟨n, hn, hmap⟩ := (hmaps i l hl).1 b hb
    have hne := ((h.horizontal_isSome hl).mp hsome).2
    exact trailingShuffles_eq_zero hmap (hfollows.horizontal i l b hl hb) hn hne
  · rintro ⟨l, hmem, hsome⟩
    obtain ⟨i, hl⟩ := List.mem_iff_getElem?.mp hmem
    obtain ⟨b, hb⟩ := Option.isSome_iff_exists.mp hsome
    obtain ⟨j, hj⟩ := h.isLinked i l hl hsome
    obtain ⟨n, hn, hmap⟩ := (hmaps i l hl).2 b hb
    have hne := ((h.vertical_isSome hl).mp hsome).2
    exact trailingShuffles_eq_zero hmap (hfollows.vertical i j l b hl hb hj) hn hne

/-- The blocks of a built pyramid take the channels of the lists, and give those of the lists
divided by four for every shuffle behind the last convolution. So the lists are followed exactly if
there is no such shuffle in a specification that some level has a block of. -/
theorem followsChannels_iff (h : p.IsBuilt scope inputs outputs horizontal vertical) :
    ∃ hor ver, SourcedSpec.read horizontal = .ok hor ∧ SourcedSpec.read vertical = .ok ver ∧
      (∀ (i : Nat) (l : Level), p.levels[i]? = some l →
        (∀ b, l.horizontal = some b → ∃ n, n * 4 ^ hor.spec.trailingShuffles = outputs[i]?.getD 0 ∧
          b.Maps (inputs[i]?.getD 0) n) ∧
        ∀ b, l.vertical = some b → ∃ j n, d.neighbour? i p.levels.length = some j ∧
          n * 4 ^ ver.spec.trailingShuffles = outputs[i]?.getD 0 ∧
          b.Maps (outputs[j]?.getD 0) n) ∧
      (p.FollowsChannels inputs outputs ↔
        ((∃ l ∈ p.levels, l.horizontal.isSome = true) → hor.spec.trailingShuffles = 0) ∧
        ((∃ l ∈ p.levels, l.vertical.isSome = true) → ver.spec.trailingShuffles = 0)) := by
  obtain ⟨hor, ver, hhor, hver, hmaps⟩ := h.maps
  refine ⟨hor, ver, hhor, hver, fun i l hl => ⟨(hmaps i l hl).1, fun b hb => ?_⟩, ?_⟩
  · obtain ⟨n, hn, hmap⟩ := (hmaps i l hl).2 b hb
    obtain ⟨j, hj⟩ := h.isLinked i l hl (by rw [hb]; rfl)
    rw [Direction.neighbourChannels_of_neighbour (h.length ▸ hj)] at hmap
    exact ⟨j, n, hj, hn, hmap⟩
  · constructor
    · intro hfollows
      exact hfollows.trailingShuffles h hhor hver
    · rintro ⟨hhorizontal, hvertical⟩
      exact h.followsChannels hhor hver hhorizontal hvertical

/-- Two levels without a shuffle. -/
theorem followsChannels_plain : ∃ encoder : Encoder,
    build .fineToCoarse "encoder" [1, 0] [4, 2] "conv(1)-conv(1)" "sconv(1)-conv(1)" = .ok encoder ∧
    encoder.FollowsChannels [1, 0] [4, 2] := by
  obtain ⟨encoder, hbuild, -⟩ := exists_eq_ok_of_map (show
      (build .fineToCoarse "encoder" [1, 0] [4, 2] "conv(1)-conv(1)"
        "sconv(1)-conv(1)").toOption.map (fun (p : Encoder) => p.levels.length) = some 2
      by decide +kernel)
  obtain ⟨hor', hhor', hhorizontal⟩ := exists_eq_ok_of_map (show
      (SourcedSpec.read "conv(1)-conv(1)").toOption.map (·.spec.trailingShuffles) = some 0
      by decide +kernel)
  obtain ⟨ver', hver', hvertical⟩ := exists_eq_ok_of_map (show
      (SourcedSpec.read "sconv(1)-conv(1)").toOption.map (·.spec.trailingShuffles) = some 0
      by decide +kernel)
  obtain ⟨hor, ver, hhor, hver, -, hfollows⟩ := followsChannels_iff (.of_build hbuild)
  cases hhor.symm.trans hhor'
  cases hver.symm.trans hver'
  exact ⟨encoder, hbuild, hfollows.mpr ⟨fun _ => hhorizontal, fun _ => hvertical⟩⟩

/-- A horizontal block that ends in a shuffle gives one channel where four are listed. The vertical
block above is made for four, and no pass gets through it. -/
theorem builds_without_following : ∃ encoder : Encoder,
    build .fineToCoarse "encoder" [1, 0] [4, 4] "conv(1)-conv(1)-up(shuffle)" "conv(1)-conv(1)"
      = .ok encoder ∧
    ¬ encoder.FollowsChannels [1, 0] [4, 4] ∧
    ∃ x : Tensor Float32, x.shape = ⟨1, 1, 2, 2⟩ ∧ (encoder.encode [some x, none] Keyed.empty).1
      = .error (.shapeMismatch (.inputChannels 4 ⟨1, 1, 4, 4⟩)) := by
  obtain ⟨encoder, hbuild, hrun⟩ := exists_eq_ok_of_map (show
      (build .fineToCoarse "encoder" [1, 0] [4, 4] "conv(1)-conv(1)-up(shuffle)"
        "conv(1)-conv(1)").toOption.map
      (fun (p : Encoder) => (p.levels[0]?.map (·.horizontal.map (·.outputs)),
        fault? (p.encode [some (Tensor.replicate ⟨1, 1, 2, 2⟩ (Scalar.one : Float32)), none]
          Keyed.empty).1))
      = some (some (some 1), some (.shapeMismatch (.inputChannels 4 ⟨1, 1, 4, 4⟩)))
      by decide +kernel)
  simp only [Prod.mk.injEq, Option.map_eq_some_iff] at hrun
  obtain ⟨⟨l, hl, b, hb, houtputs⟩, hfault⟩ := hrun
  refine ⟨encoder, hbuild, fun hfollows => ?_, _, rfl, eq_error_of_fault? hfault⟩
  have hfour : b.outputs = 4 := (hfollows.horizontal 0 l b hl hb).outputs_eq
  rw [houtputs] at hfour
  cases hfour

end Pyramid

end Midframe
