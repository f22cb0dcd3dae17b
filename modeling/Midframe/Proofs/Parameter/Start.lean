import Midframe.Proofs.Parameter.Reset

/-!
# Starting values

A construction gives every array the values that a traversal would ask for under the name it
reports: a weight is drawn for its own name, a bias is zero, and a slope is the one that the
operation names. Whatever becomes of the parameters afterwards, a reset brings all of this back.
-/

namespace Midframe

/-- The operations of a block that its main chain is compiled from. -/
def Block.mainOps (b : Block) : List Op := (splitEvenize b.spec.ops).2.2

/-- What an array holds at first. The three kinds of arrays differ in the number of their extents
and in the ends of their names. -/
inductive StartsAs (blocks : List (String × Block)) : NamedArray → Prop
  /-- A weight is drawn for its name, with as many terms as one sum of the convolution gathers. -/
  | weight (scope : String) (outputs inputs kernel : Nat) :
    StartsAs blocks (scope ++ ".weight", ⟨[outputs, inputs, kernel, kernel],
      (uniformValues (scope ++ ".weight") (inputs * kernel * kernel)
        (outputs * inputs * kernel * kernel)).toArray⟩)
  /-- A bias is zero. -/
  | bias (scope : String) (outputs : Nat) :
    StartsAs blocks (scope ++ ".bias", ⟨[outputs], Array.replicate outputs 0⟩)
  /-- A slope is that of its operation. -/
  | slope {scope : String} {b : Block} {index : Nat} {initial : Float32}
    (block : (scope, b) ∈ blocks) (op : b.mainOps[index]? = some (.prelu initial)) :
    StartsAs blocks (inScope scope s!"main.{index}" ++ ".weight", ⟨[1], #[initial]⟩)

variable {blocks : List (String × Block)}

theorem Convolution.startsAs {scope : String} {c : Convolution} (fresh : c.reset scope = c)
    (square : c.IsSquare) : ∀ a ∈ c.arrays scope, StartsAs blocks a := by
  intro a ha
  rw [← fresh] at ha
  obtain ⟨⟨⟨outputs, inputs, height, width⟩, weight⟩, bias, windows⟩ := c
  obtain rfl : width = height := square
  rcases List.mem_cons.mp ha with rfl | ha
  · exact .weight scope outputs inputs width
  · cases bias with
    | none => cases ha
    | some bias =>
      obtain rfl := List.mem_singleton.mp ha
      exact .bias scope outputs

/-! ## Compiled slopes -/

namespace Block

/-- Every rectifier of a chain comes from an operation with its slope. -/
theorem compileChain_slopes {source : String} {flags : Flags} {plan : List Nat}
    {index inputs : Nat} {rest : List Nat} {ops : List Op} {layers : List Layer} {last : Nat}
    {left : List Nat}
    (h : compileChain source flags plan index inputs rest ops = .ok (layers, last, left)) {i : Nat}
    {initial slope : Float32} (hi : layers[i]? = some (.prelu initial slope)) :
    ops[i]? = some (.prelu initial) := by
  induction ops generalizing index inputs rest layers i with
  | nil =>
    cases h
    simp at hi
  | cons op ops ih =>
    obtain ⟨outputs, mid, layer, tail, -, hlayer, htail, rfl⟩ := compileChain_cons h
    cases i with
    | succ i => exact ih htail hi
    | zero =>
      obtain rfl := Option.some.inj hi
      cases op with
      | prelu s =>
        cases hlayer
        rfl
      | up algorithm =>
        cases algorithm with
        | shuffle =>
          simp only [Layer.ofOp] at hlayer
          split at hlayer <;> cases hlayer
        | _ => cases hlayer
      | _ => cases hlayer

theorem resetChain_getElem? (scope : String) (index : Nat) (main : List Layer) (i : Nat) :
    (resetChain scope index main)[i]?
      = main[i]?.map fun layer => layer.reset (inScope scope s!"main.{index + i}") := by
  induction main generalizing index i with
  | nil => rfl
  | cons layer rest ih =>
    cases i with
    | zero => rfl
    | succ i =>
      rw [resetChain, List.getElem?_cons_succ, ih, List.getElem?_cons_succ]
      simp only [Nat.add_assoc, Nat.add_comm 1]

theorem mem_chainLayers {scope : String} {index : Nat} {main : List Layer} {p : String × Layer}
    (h : p ∈ chainLayers scope index main) :
    ∃ i, main[i]? = some p.2 ∧ p.1 = inScope scope s!"main.{index + i}" := by
  induction main generalizing index with
  | nil => cases h
  | cons layer rest ih =>
    rcases List.mem_cons.mp h with rfl | h
    · exact ⟨0, rfl, rfl⟩
    · obtain ⟨i, hi, hscope⟩ := ih h
      refine ⟨i + 1, hi, ?_⟩
      rw [hscope, Nat.add_assoc, Nat.add_comm 1]

/-! ## Fresh blocks -/

/-- A block as it was built under a scope. -/
structure IsFresh (scope : String) (b : Block) : Prop where
  /-- A reset changes nothing. -/
  reset_eq : b.reset scope = b
  /-- The block is regular. -/
  regular : b.IsRegular
  /-- The slopes of its rectifiers are those of its operations. -/
  slopes : ∀ (i : Nat) (initial slope : Float32), b.main[i]? = some (.prelu initial slope) →
    b.mainOps[i]? = some (.prelu initial)

theorem build_isFresh {scope source : String} {spec : BlockSpec} {plan : List Nat} {b : Block}
    (h : build scope source spec plan = .ok b) : b.IsFresh scope := by
  have hregular := build_isRegular h
  obtain ⟨compiled, hcompiled, rfl⟩ := map_eq_ok.mp h
  refine ⟨compiled.reset_reset scope, hregular, fun i initial slope hi => ?_⟩
  obtain ⟨inputs, rest, main, outputs, shortcut, rfl, hchain, -, rfl⟩ := compile_eq_ok hcompiled
  obtain ⟨layer, hlayer, hreset⟩ :=
    Option.map_eq_some_iff.mp ((resetChain_getElem? scope 0 main i).symm.trans hi)
  cases layer with
  | prelu initial' slope' =>
    cases hreset
    exact compileChain_slopes hchain hlayer
  | _ => cases hreset

/-- The layers of a fresh block are as a reset leaves them. -/
theorem IsFresh.reset_layer {scope : String} {b : Block} (h : b.IsFresh scope)
    {p : String × Layer} (hp : p ∈ b.layers scope) : p.2.reset p.1 = p.2 := by
  rw [← h.reset_eq, layers_reset] at hp
  obtain ⟨q, -, rfl⟩ := List.mem_map.mp hp
  exact q.2.reset_reset q.1

/-- Every array of a fresh block holds what it holds at first. -/
theorem IsFresh.startsAs {scope : String} {b : Block} (h : b.IsFresh scope)
    (hb : (scope, b) ∈ blocks) {p : String × Layer} (hp : p ∈ b.layers scope) :
    ∀ a ∈ p.2.arrays p.1, StartsAs blocks a := by
  have hfresh := h.reset_layer hp
  rcases List.mem_append.mp hp with hmain | hshortcut
  · obtain ⟨i, hi, hscope⟩ := mem_chainLayers hmain
    obtain ⟨s, layer⟩ := p
    have hregular := h.regular.main layer (List.mem_of_getElem? hi)
    cases layer with
    | conv c => exact Convolution.startsAs (Layer.conv.inj hfresh) hregular
    | prelu initial slope =>
      obtain ⟨-, rfl⟩ := Layer.prelu.inj hfresh
      intro a ha
      obtain rfl := List.mem_singleton.mp ha
      rw [Nat.zero_add] at hscope
      obtain rfl := hscope
      exact .slope hb (h.slopes i _ _ hi)
    | _ => simp [Layer.arrays]
  · -- The only layer of the shortcut is its projection.
    cases hsc : b.shortcut with
    | none =>
      rw [hsc] at hshortcut
      cases hshortcut
    | some sc =>
      rw [hsc] at hshortcut
      obtain ⟨c, hc, rfl⟩ := List.mem_map.mp hshortcut
      have hpointwise := h.regular.pointwise sc hsc c (Option.mem_toList.mp hc)
      exact Convolution.startsAs (Layer.conv.inj hfresh) hpointwise.isSquare

end Block

/-! ## Fresh pyramids and networks -/

namespace Pyramid

variable {d : Direction}

theorem edge_isFresh {scope : String} {spec : SourcedSpec} {inputs outputs : Nat}
    {o : Option Block} (h : Level.edge scope spec inputs outputs = .ok o) :
    ∀ b ∈ o, b.IsFresh scope := by
  intro b hb
  rcases edge_eq_ok h with ⟨-, rfl⟩ | ⟨-, -, b', hb', rfl⟩
  · cases hb
  · cases hb
    exact Block.build_isFresh hb'

theorem level_isFresh {scope : String} {horizontal vertical : SourcedSpec}
    {level inputs outputs neighbour : Nat} {l : Level}
    (h : Level.build scope horizontal vertical level inputs outputs neighbour = .ok l) :
    ∀ p ∈ l.blocks scope level, p.2.IsFresh p.1 := by
  obtain ⟨hhorizontal, hvertical⟩ := level_edges h
  intro p hp
  rcases List.mem_append.mp hp with hp | hp
  · obtain ⟨b, hb, rfl⟩ := List.mem_map.mp hp
    exact edge_isFresh hhorizontal b (Option.mem_toList.mp hb)
  · obtain ⟨b, hb, rfl⟩ := List.mem_map.mp hp
    exact edge_isFresh hvertical b (Option.mem_toList.mp hb)

theorem buildLevels_isFresh {scope : String} {horizontal vertical : SourcedSpec}
    {outputs : List Nat} {level : Nat} {channels : List (Nat × Nat)} {levels : List Level}
    (h : buildLevels d scope horizontal vertical outputs level channels = .ok levels) :
    ∀ p ∈ levelBlocks scope level levels, p.2.IsFresh p.1 := by
  induction channels generalizing level levels with
  | nil =>
    cases h
    intro p hp
    cases hp
  | cons c rest ih =>
    simp only [buildLevels, bind_eq_ok, pure_eq_ok] at h
    obtain ⟨first, hfirst, tail, htail, rfl⟩ := h
    intro p hp
    rcases List.mem_append.mp hp with hp | hp
    · exact level_isFresh hfirst p hp
    · exact ih htail p hp

theorem build_isFresh {scope horizontal vertical : String} {inputs outputs : List Nat}
    {p : Pyramid d} (h : build d scope inputs outputs horizontal vertical = .ok p) :
    ∀ b ∈ p.blocks, b.2.IsFresh b.1 := by
  obtain ⟨-, _, _, _, -, -, hlevels, rfl⟩ := build_eq_ok h
  exact buildLevels_isFresh hlevels

theorem build_startsAs {scope horizontal vertical : String} {inputs outputs : List Nat}
    {p : Pyramid d} (h : build d scope inputs outputs horizontal vertical = .ok p) :
    ∀ a ∈ p.report, StartsAs p.blocks a := by
  intro a ha
  rw [report_eq] at ha
  obtain ⟨l, hl, ha⟩ := List.mem_flatMap.mp ha
  obtain ⟨b, hb, hl⟩ := List.mem_flatMap.mp hl
  exact (build_isFresh h b hb).startsAs hb hl a ha

end Pyramid

namespace Network

theorem buildInput_reset (outputs : Nat) :
    (buildInput outputs).reset "input" = buildInput outputs :=
  Convolution.reset_reset "input" _

theorem build_isFresh {config : Config} {net : Network} (h : build config = .ok net) :
    ∀ b ∈ net.blocks, b.2.IsFresh b.1 := by
  obtain ⟨-, -, -, hencoder, hdecoder, spec, -, hheads⟩ := build_eq_ok h
  obtain ⟨hone, htwo, hthree, hfour⟩ := Heads.traverse_eq_ok.mp hheads
  intro b hb
  rcases List.mem_append.mp hb with hb | hb
  · rcases List.mem_append.mp hb with hb | hb
    · exact Pyramid.build_isFresh hencoder b hb
    · exact Pyramid.build_isFresh hdecoder b hb
  · simp only [Heads.blocks, List.mem_cons, List.not_mem_nil, or_false] at hb
    obtain rfl | rfl | rfl | rfl := hb
    · exact Block.build_isFresh hone
    · exact Block.build_isFresh htwo
    · exact Block.build_isFresh hthree
    · exact Block.build_isFresh hfour

theorem build_startsAs {config : Config} {net : Network} (h : build config = .ok net) :
    ∀ a ∈ net.report, StartsAs net.blocks a := by
  intro a ha
  rw [report_eq] at ha
  obtain ⟨l, hl, ha⟩ := List.mem_flatMap.mp ha
  rcases List.mem_cons.mp hl with rfl | hl
  · obtain ⟨-, -, hinput, -⟩ := build_eq_ok h
    refine Convolution.startsAs (c := net.input) ?_ ?_ a ha
    · rw [hinput, buildInput_reset]
    · rw [hinput]
      rfl
  · obtain ⟨b, hb, hl⟩ := List.mem_flatMap.mp hl
    exact (build_isFresh h b hb).startsAs hb hl a ha

end Network

/-! ## Resets of what was built -/

theorem Block.build_reset {scope source : String} {spec : BlockSpec} {plan : List Nat} {b : Block}
    (h : build scope source spec plan = .ok b) : b.reset scope = b :=
  (build_isFresh h).reset_eq

namespace Pyramid

variable {d : Direction}

theorem edge_reset {scope : String} {spec : SourcedSpec} {inputs outputs : Nat} {o : Option Block}
    (h : Level.edge scope spec inputs outputs = .ok o) : o.map (Block.reset scope) = o := by
  cases o with
  | none => rfl
  | some b => exact congrArg some (edge_isFresh h b rfl).reset_eq

theorem buildLevels_reset {scope : String} {horizontal vertical : SourcedSpec}
    {outputs : List Nat} {level : Nat} {channels : List (Nat × Nat)} {levels : List Level}
    (h : buildLevels d scope horizontal vertical outputs level channels = .ok levels) :
    resetLevels scope level levels = levels := by
  induction channels generalizing level levels with
  | nil =>
    cases h
    rfl
  | cons c rest ih =>
    simp only [buildLevels, bind_eq_ok, pure_eq_ok] at h
    obtain ⟨first, hfirst, tail, htail, rfl⟩ := h
    obtain ⟨hhorizontal, hvertical⟩ := level_edges hfirst
    have hlevel : first.reset scope level = first := by
      rw [Level.reset, edge_reset hhorizontal, edge_reset hvertical]
    exact congrArg₂ List.cons hlevel (ih htail)

theorem build_reset {scope horizontal vertical : String} {inputs outputs : List Nat}
    {p : Pyramid d} (h : build d scope inputs outputs horizontal vertical = .ok p) :
    p.reset = p := by
  obtain ⟨-, _, _, _, -, -, hlevels, rfl⟩ := build_eq_ok h
  exact congrArg (mk scope) (buildLevels_reset hlevels)

end Pyramid

theorem Network.build_reset {config : Config} {net : Network} (h : build config = .ok net) :
    net.reset = net := by
  obtain ⟨-, -, hinput, hencoder, hdecoder, spec, -, hheads⟩ := build_eq_ok h
  obtain ⟨hone, htwo, hthree, hfour⟩ := Heads.traverse_eq_ok.mp hheads
  obtain ⟨config', input, encoder, decoder, heads⟩ := net
  subst hinput
  rw [reset_eq, buildInput_reset, Pyramid.build_reset hencoder, Pyramid.build_reset hdecoder,
    Heads.reset_eq, Block.build_reset hone, Block.build_reset htwo, Block.build_reset hthree,
    Block.build_reset hfour]

/-! ## Changes -/

/-- What every step keeps is kept by all of them. -/
theorem eq_of_reflTransGen {α β : Type} {step : α → α → Prop} {f : α → β}
    (hstep : ∀ {a b : α}, step a b → f b = f a) {a b : α} (h : Relation.ReflTransGen step a b) :
    f b = f a := by
  induction h with
  | refl => rfl
  | tail _ hlast ih => exact (hstep hlast).trans ih

/-- A change of the parameters of a network. A visitor may do anything with the values, and what it
does may depend on all it has seen before; one that fails leaves everything behind as it is. -/
inductive Network.Change : Network → Network → Prop
  /-- A visitor with a state of its own writes into the arrays. -/
  | visit {σ : Type} (f : Visit (StateM σ)) (s : σ) (net : Network) :
    Change net ((net.visit f).run s).1
  /-- A store is loaded, or as much of it as fits. -/
  | load (store : Store) (net : Network) : Change net (net.load store).1
  /-- All parameters are reset. -/
  | reset (net : Network) : Change net net.reset

/-- A change of the parameters of a pyramid. -/
inductive Pyramid.Change {d : Direction} : Pyramid d → Pyramid d → Prop
  /-- A visitor with a state of its own writes into the arrays. -/
  | visit {σ : Type} (f : Visit (StateM σ)) (s : σ) (p : Pyramid d) :
    Change p ((p.visit f).run s).1
  /-- All parameters are reset. -/
  | reset (p : Pyramid d) : Change p p.reset

/-- A network of a configuration, after any changes of its parameters. -/
def Network.IsOf (net : Network) (config : Config) : Prop :=
  ∃ built, build config = .ok built ∧ Relation.ReflTransGen Change built net

/-- A pyramid built from these, after any changes of its parameters. -/
def Pyramid.IsOf {d : Direction} (p : Pyramid d) (scope : String) (inputs outputs : List Nat)
    (horizontal vertical : String) : Prop :=
  ∃ built, build d scope inputs outputs horizontal vertical = .ok built ∧
    Relation.ReflTransGen Change built p

namespace Pyramid

variable {d : Direction} {p : Pyramid d} {scope horizontal vertical : String}
  {inputs outputs : List Nat}

/-- No change shows in what a reset leaves. -/
theorem Change.reset_eq {q : Pyramid d} (h : Change p q) : q.reset = p.reset := by
  cases h with
  | visit f s => exact congrArg Prod.fst ((p.visit_gathers f).run_state s).1
  | reset => exact p.reset_reset

theorem IsOf.build_reset (h : p.IsOf scope inputs outputs horizontal vertical) :
    build d scope inputs outputs horizontal vertical = .ok p.reset := by
  obtain ⟨built, hbuild, hchanges⟩ := h
  have hreset : p.reset = built.reset := eq_of_reflTransGen (f := reset) Change.reset_eq hchanges
  rw [hreset, Pyramid.build_reset hbuild, hbuild]

end Pyramid

namespace Network

variable {config : Config} {net : Network}

theorem load_fst (net : Network) (store : Store) :
    (net.load store).1 = ((net.visit (Visit.untilFault (storedValues store))).run none).1 := by
  unfold load
  obtain ⟨net', fault⟩ := (net.visit (Visit.untilFault (storedValues store))).run none
  cases fault with
  | some e => rfl
  | none =>
    simp only
    split <;> rfl

theorem visit_reset {σ : Type} (f : Visit (StateM σ)) (s : σ) (net : Network) :
    ((net.visit f).run s).1.reset = net.reset :=
  congrArg Prod.fst ((net.visit_gathers f).run_state s).1

/-- No change shows in what a reset leaves. -/
theorem Change.reset_eq {net' : Network} (h : Change net net') : net'.reset = net.reset := by
  cases h with
  | visit f s => exact visit_reset f s net
  | load store => rw [load_fst, visit_reset]
  | reset => exact net.reset_reset

theorem IsOf.build_reset (h : net.IsOf config) : build config = .ok net.reset := by
  obtain ⟨built, hbuild, hchanges⟩ := h
  have hreset : net.reset = built.reset := eq_of_reflTransGen (f := reset) Change.reset_eq hchanges
  rw [hreset, Network.build_reset hbuild, hbuild]

end Network

/-- After any changes of the parameters of a network or a pyramid, a reset leaves it exactly as it
was built, and every array that a traversal then reports holds what it holds at first. -/
theorem reset_restores {config : Config} {net : Network} {d : Direction} {p : Pyramid d}
    {scope horizontal vertical : String} {inputs outputs : List Nat} (hnet : net.IsOf config)
    (hp : p.IsOf scope inputs outputs horizontal vertical) :
    (Network.build config = .ok net.reset ∧
      ∀ a ∈ net.reset.report, StartsAs net.reset.blocks a) ∧
    Pyramid.build d scope inputs outputs horizontal vertical = .ok p.reset ∧
      ∀ a ∈ p.reset.report, StartsAs p.reset.blocks a := by
  have hbuild := hnet.build_reset
  have hbuild' := hp.build_reset
  exact ⟨⟨hbuild, Network.build_startsAs hbuild⟩, hbuild', Pyramid.build_startsAs hbuild'⟩

/-- A configuration of two levels. -/
def twoLevels : Config := { channels := [2, 1], kernelSize := 1 }

theorem exists_twoLevels : ∃ net, Network.build twoLevels = .ok net :=
  exists_eq_ok_of_isOk (by decide +kernel)

/-- A store with the first array of such a network, and nothing else. -/
def strayStore : Store := Keyed.empty.insert "input.weight" ⟨[1, 3, 3, 3], Array.replicate 27 2⟩

/-- Resets after a load that stops at the second array, and of an encoder whose scope has a dot. -/
theorem reset_restores_stray : ∃ (built : Network) (p : Encoder),
    Network.build twoLevels = .ok built ∧
    Pyramid.build .fineToCoarse "left.eye" [1, 0] [1, 2] "prelu(0.5)-conv(1)-conv(3)+skip"
      "conv(1)-sconv(3)" = .ok p ∧
    (Network.build twoLevels = .ok (built.load strayStore).1.reset ∧
      ∀ a ∈ (built.load strayStore).1.reset.report,
        StartsAs (built.load strayStore).1.reset.blocks a) ∧
    Pyramid.build .fineToCoarse "left.eye" [1, 0] [1, 2] "prelu(0.5)-conv(1)-conv(3)+skip"
        "conv(1)-sconv(3)" = .ok p.reset ∧
      ∀ a ∈ p.reset.report, StartsAs p.reset.blocks a := by
  obtain ⟨built, hbuilt⟩ := exists_twoLevels
  obtain ⟨p, hp⟩ := exists_eq_ok_of_isOk (show (Pyramid.build .fineToCoarse "left.eye" [1, 0] [1, 2]
    "prelu(0.5)-conv(1)-conv(3)+skip" "conv(1)-sconv(3)").isOk = true by decide +kernel)
  exact ⟨built, p, hbuilt, hp,
    reset_restores ⟨built, hbuilt, .single (.load strayStore built)⟩ ⟨p, hp, .refl⟩⟩

end Midframe
