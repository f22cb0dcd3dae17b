import Midframe.Network

/-!
# Traversals

A traversal hands all arrays of its owner to a callback, each once and in a fixed order, and puts
back what the callback returns. So of a traversal in any monad it is enough to know the list of its
arrays: the rest of the owner, everything that a reset would leave, stays as it is.

The list is made in three stages. A network and a pyramid consist of blocks, a block of layers, and
each layer has at most two arrays. Blocks and layers come with the scope of their names.
-/

namespace Midframe

/-- An array of parameters and its name. -/
abbrev NamedArray := String × ParameterArray

/-! ## Blocks, layers and arrays -/

namespace Convolution

/-- The weight, then the bias. -/
def arrays (scope : String) (c : Convolution) : List NamedArray :=
  (scope ++ ".weight", ⟨c.weight.shape.extents, c.weight.data.toArray⟩) ::
    c.bias.toList.map fun bias => (scope ++ ".bias", ⟨[c.outputs], bias.toArray⟩)

end Convolution

namespace Layer

/-- The arrays of a layer. -/
def arrays (scope : String) : Layer → List NamedArray
  | conv c => c.arrays scope
  | prelu _ slope => [(scope ++ ".weight", ⟨[1], #[slope]⟩)]
  | _ => []

/-- The arrays of some layers, each with its scope. -/
def allArrays (layers : List (String × Layer)) : List NamedArray :=
  layers.flatMap fun p => p.2.arrays p.1

@[simp] theorem allArrays_nil : allArrays [] = [] := rfl

@[simp] theorem allArrays_cons (p : String × Layer) (layers : List (String × Layer)) :
    allArrays (p :: layers) = p.2.arrays p.1 ++ allArrays layers := List.flatMap_cons

@[simp] theorem allArrays_append (layers layers' : List (String × Layer)) :
    allArrays (layers ++ layers') = allArrays layers ++ allArrays layers' := List.flatMap_append

end Layer

namespace Shortcut

/-- The projection. -/
def layers (scope : String) (s : Shortcut) : List (String × Layer) :=
  s.projection.toList.map fun c => (scope, .conv c)

end Shortcut

namespace Block

/-- The layers from position `index` on. -/
def chainLayers (scope : String) (index : Nat) : List Layer → List (String × Layer)
  | [] => []
  | layer :: layers =>
    (inScope scope s!"main.{index}", layer) :: chainLayers scope (index + 1) layers

/-- The layers in order of application, then that of the shortcut. -/
def layers (scope : String) (b : Block) : List (String × Layer) :=
  chainLayers scope 0 b.main ++
    match b.shortcut with
    | none => []
    | some s => s.layers (inScope scope "shortcut")

/-- The layers of some blocks, each with its scope. -/
def allLayers (blocks : List (String × Block)) : List (String × Layer) :=
  blocks.flatMap fun p => p.2.layers p.1

@[simp] theorem allLayers_nil : allLayers [] = [] := rfl

@[simp] theorem allLayers_cons (p : String × Block) (blocks : List (String × Block)) :
    allLayers (p :: blocks) = p.2.layers p.1 ++ allLayers blocks := List.flatMap_cons

@[simp] theorem allLayers_append (blocks blocks' : List (String × Block)) :
    allLayers (blocks ++ blocks') = allLayers blocks ++ allLayers blocks' := List.flatMap_append

/-- The arrays of some blocks. -/
def allArrays (blocks : List (String × Block)) : List NamedArray :=
  Layer.allArrays (allLayers blocks)

@[simp] theorem allArrays_cons (p : String × Block) (blocks : List (String × Block)) :
    allArrays (p :: blocks) = Layer.allArrays (p.2.layers p.1) ++ allArrays blocks := by
  simp [allArrays]

@[simp] theorem allArrays_append (blocks blocks' : List (String × Block)) :
    allArrays (blocks ++ blocks') = allArrays blocks ++ allArrays blocks' := by
  simp [allArrays]

end Block

/-- The horizontal block, then the vertical one. -/
def Level.blocks (scope : String) (level : Nat) (l : Level) : List (String × Block) :=
  l.horizontal.toList.map (horizontalScope scope level, ·) ++
    l.vertical.toList.map (verticalScope scope level, ·)

namespace Pyramid

variable {d : Direction}

/-- The blocks of the levels from position `level` on. -/
def levelBlocks (scope : String) (level : Nat) : List Level → List (String × Block)
  | [] => []
  | l :: rest => l.blocks scope level ++ levelBlocks scope (level + 1) rest

/-- The blocks of all levels, finest first. -/
def blocks (p : Pyramid d) : List (String × Block) := levelBlocks p.scope 0 p.levels

/-- All arrays. -/
def arrays (p : Pyramid d) : List NamedArray := Block.allArrays p.blocks

end Pyramid

/-- The heads with their scopes, in order. -/
def Heads.blocks (h : Heads Block) : List (String × Block) :=
  [(Network.headScope "vertical_one", h.verticalOne),
    (Network.headScope "horizontal_one", h.horizontalOne),
    (Network.headScope "vertical_two", h.verticalTwo),
    (Network.headScope "horizontal_two", h.horizontalTwo)]

namespace Network

/-- The blocks of the encoder, the decoder and the heads. -/
def blocks (net : Network) : List (String × Block) :=
  net.encoder.blocks ++ net.decoder.blocks ++ net.heads.blocks

/-- The convolution in front, and the layers of all blocks. -/
def layers (net : Network) : List (String × Layer) :=
  ("input", .conv net.input) :: Block.allLayers net.blocks

/-- All arrays. -/
def arrays (net : Network) : List NamedArray := Layer.allArrays net.layers

end Network

/-! ## What a traversal does -/

section Gathers

variable {m : Type → Type} [Monad m] {α α₁ α₂ β β₁ β₂ : Type} {f : Visit m}

/-- The callback on an array with its name. -/
def Visit.onArray (f : Visit m) (a : NamedArray) : m NamedArray :=
  (fun values => (a.1, ⟨a.2.shape, values.toArray⟩)) <$>
    f ⟨a.1, a.2.shape⟩ (⟨a.2.data, rfl⟩ : Vector Float32 a.2.data.size)

/-- A run hands some arrays to the callback, one after the other, and does nothing else. A view of
its result shows the arrays that came back and, beside them, a rest that the callback does not
change. -/
def Gathers (f : Visit m) (run : m α) (view : α → β × List NamedArray)
    (parts : β × List NamedArray) : Prop :=
  view <$> run = (parts.1, ·) <$> parts.2.mapM f.onArray

namespace Gathers

variable [LawfulMonad m] {run₁ : m α₁} {run₂ : m α₂} {view₁ : α₁ → β₁ × List NamedArray}
  {view₂ : α₂ → β₂ × List NamedArray} {parts₁ : β₁ × List NamedArray}
  {parts₂ : β₂ × List NamedArray}

/-- Nothing is handed over. -/
theorem pure {view : α → β × List NamedArray} {a : α} {rest : β} (h : view a = (rest, [])) :
    Gathers f (Pure.pure a) view (rest, []) := by
  simp [Gathers, h]

/-- One array is handed over. -/
theorem array (f : Visit m) (name : String) (shape : List Nat) {n : Nat}
    (values : Vector Float32 n) :
    Gathers f (f ⟨name, shape⟩ values) (fun v => ((), [(name, ⟨shape, v.toArray⟩)]))
      ((), [(name, ⟨shape, values.toArray⟩)]) := by
  obtain ⟨data, rfl⟩ := values
  simp [Gathers, Visit.onArray]

/-- The result is made of one run. -/
theorem map (h : Gathers f run₁ view₁ parts₁) (view : α → β × List NamedArray) (make : α₁ → α)
    (rest : β₁ → β) (hview : ∀ x, view (make x) = (rest (view₁ x).1, (view₁ x).2)) :
    Gathers f (run₁ >>= fun x => Pure.pure (make x)) view (rest parts₁.1, parts₁.2) := by
  unfold Gathers at h ⊢
  calc view <$> (run₁ >>= fun x => Pure.pure (make x))
      = (fun v => (rest v.1, v.2)) <$> view₁ <$> run₁ := by simp [Functor.map_map, hview]
    _ = (rest parts₁.1, ·) <$> parts₁.2.mapM f.onArray := by simp [h, Functor.map_map]

/-- The result is made of two runs, one behind the other. -/
theorem seq (h₁ : Gathers f run₁ view₁ parts₁) (h₂ : Gathers f run₂ view₂ parts₂)
    (view : α → β × List NamedArray) (make : α₁ → α₂ → α) (rest : β₁ → β₂ → β)
    (hview : ∀ x y,
      view (make x y) = (rest (view₁ x).1 (view₂ y).1, (view₁ x).2 ++ (view₂ y).2)) :
    Gathers f (run₁ >>= fun x => run₂ >>= fun y => Pure.pure (make x y)) view
      (rest parts₁.1 parts₂.1, parts₁.2 ++ parts₂.2) := by
  unfold Gathers at h₁ h₂ ⊢
  have hsecond (v : β₁ × List NamedArray) :
      (fun w => (rest v.1 w.1, v.2 ++ w.2)) <$> view₂ <$> run₂
        = (fun as => (rest v.1 parts₂.1, v.2 ++ as)) <$> parts₂.2.mapM f.onArray := by
    simp [h₂, Functor.map_map]
  calc view <$> (run₁ >>= fun x => run₂ >>= fun y => Pure.pure (make x y))
      = (view₁ <$> run₁) >>= fun v =>
          (fun w => (rest v.1 w.1, v.2 ++ w.2)) <$> view₂ <$> run₂ := by
        simp [Functor.map_map, hview]
    _ = (parts₁.1, ·) <$> parts₁.2.mapM f.onArray >>= fun v =>
          (fun as => (rest v.1 parts₂.1, v.2 ++ as)) <$> parts₂.2.mapM f.onArray := by
        simp only [h₁, hsecond]
    _ = (rest parts₁.1 parts₂.1, ·) <$> (parts₁.2 ++ parts₂.2).mapM f.onArray := by
        simp [List.mapM_append, map_bind, Functor.map_map]

/-- Two runs, one behind the other, side by side. -/
def pairView (view₁ : α₁ → β₁ × List NamedArray) (view₂ : α₂ → β₂ × List NamedArray)
    (p : α₁ × α₂) : (β₁ × β₂) × List NamedArray :=
  (((view₁ p.1).1, (view₂ p.2).1), (view₁ p.1).2 ++ (view₂ p.2).2)

theorem pair (h₁ : Gathers f run₁ view₁ parts₁) (h₂ : Gathers f run₂ view₂ parts₂) :
    Gathers f (run₁ >>= fun x => run₂ >>= fun y => Pure.pure (x, y)) (pairView view₁ view₂)
      ((parts₁.1, parts₂.1), parts₁.2 ++ parts₂.2) :=
  h₁.seq h₂ (pairView view₁ view₂) Prod.mk Prod.mk fun _ _ => rfl

end Gathers

end Gathers

/-! ## The traversals of all owners

Every owner consists of what a reset leaves of it and of its arrays. A traversal changes the second
part only. -/

section Owners

variable {m : Type → Type} [Monad m] [LawfulMonad m] (f : Visit m)

namespace Convolution

/-- What a reset leaves, and the arrays. -/
def parts (scope : String) (c : Convolution) : Convolution × List NamedArray :=
  (c.reset scope, c.arrays scope)

theorem visit_gathers (scope : String) (c : Convolution) :
    Gathers f (c.visit scope f) (parts scope) (c.parts scope) := by
  obtain ⟨⟨shape, weight⟩, bias, windows⟩ := c
  have hweight := Gathers.array f (scope ++ ".weight") shape.extents weight
  cases bias with
  | none =>
    exact hweight.map (parts scope) (⟨⟨shape, ·⟩, none, windows⟩)
      (fun _ => reset scope ⟨⟨shape, weight⟩, none, windows⟩) fun _ => rfl
  | some bias =>
    have hbias := Gathers.array f (scope ++ ".bias") [shape.batch] bias
    exact hweight.seq hbias (parts scope) (fun v w => ⟨⟨shape, v⟩, some w, windows⟩)
      (fun _ _ => reset scope ⟨⟨shape, weight⟩, some bias, windows⟩) fun _ _ => rfl

end Convolution

namespace Layer

/-- What a reset leaves, and the arrays. -/
def parts (scope : String) (layer : Layer) : Layer × List NamedArray :=
  (layer.reset scope, layer.arrays scope)

theorem singleton_getElem (v : Vector Float32 1) (h : 0 < 1) : #[v[0]] = v.toArray := by
  have hsize : v.toArray.size = 1 := v.size_toArray
  refine Array.ext hsize.symm fun i hi _ => ?_
  obtain rfl : i = 0 := by simpa using hi
  rfl

theorem visit_gathers (scope : String) (layer : Layer) :
    Gathers f (layer.visit scope f) (parts scope) (layer.parts scope) := by
  cases layer with
  | conv c =>
    have h := (c.visit_gathers f scope).map (parts scope) conv conv fun _ => rfl
    rwa [bind_pure_comp] at h
  | prelu initial slope =>
    refine (Gathers.array f (scope ++ ".weight") [1] #v[slope]).map (parts scope)
      (fun v => prelu initial v[0]) (fun _ => prelu initial initial) fun v => ?_
    simp only [parts, arrays, reset, singleton_getElem v Nat.zero_lt_one]
  | _ => exact Gathers.pure rfl

end Layer

namespace Shortcut

/-- What a reset leaves, and the arrays. -/
def parts (scope : String) (s : Shortcut) : Shortcut × List NamedArray :=
  (s.reset scope, Layer.allArrays (s.layers scope))

theorem visit_gathers (scope : String) (s : Shortcut) :
    Gathers f (s.visit scope f) (parts scope) (s.parts scope) := by
  obtain ⟨policy, scale, projection⟩ := s
  cases projection with
  | none => exact Gathers.pure rfl
  | some c =>
    have hparts (c : Convolution) : parts scope ⟨policy, scale, some c⟩
        = (⟨policy, scale, some (c.reset scope)⟩, c.arrays scope) :=
      congrArg (Prod.mk _) (List.append_nil _)
    rw [hparts]
    exact (c.visit_gathers f scope).map (parts scope) (⟨policy, scale, some ·⟩)
      (⟨policy, scale, some ·⟩) hparts

end Shortcut

namespace Block

/-- What a reset leaves of a chain, and its arrays. -/
def chainParts (scope : String) (index : Nat) (main : List Layer) :
    List Layer × List NamedArray :=
  (resetChain scope index main, Layer.allArrays (chainLayers scope index main))

/-- What a reset leaves, and the arrays. -/
def parts (scope : String) (b : Block) : Block × List NamedArray :=
  (b.reset scope, Layer.allArrays (b.layers scope))

theorem visitChain_gathers (scope : String) (index : Nat) (main : List Layer) :
    Gathers f (visitChain scope f index main) (chainParts scope index)
      (chainParts scope index main) := by
  induction main generalizing index with
  | nil => exact Gathers.pure rfl
  | cons layer rest ih =>
    exact (layer.visit_gathers f _).seq (ih (index + 1)) (chainParts scope index) List.cons
      List.cons fun _ _ => rfl

theorem visit_gathers (scope : String) (b : Block) :
    Gathers f (b.visit scope f) (parts scope) (b.parts scope) := by
  obtain ⟨source, spec, inputs, outputs, stride, evenize, main, shortcut⟩ := b
  have hmain := visitChain_gathers f scope 0 main
  let make (main : List Layer) (shortcut : Option Shortcut) : Block :=
    ⟨source, spec, inputs, outputs, stride, evenize, main, shortcut⟩
  cases shortcut with
  | none =>
    have hparts (main : List Layer) : (make main none).parts scope
        = (make (chainParts scope 0 main).1 none, (chainParts scope 0 main).2) :=
      congrArg (Prod.mk _) (congrArg Layer.allArrays (List.append_nil _))
    show Gathers f _ _ ((make main none).parts scope)
    rw [hparts]
    exact hmain.map (parts scope) (make · none) (make · none) hparts
  | some sc =>
    have hparts (main : List Layer) (sc : Shortcut) : (make main (some sc)).parts scope
        = (make (chainParts scope 0 main).1 (some (sc.parts (inScope scope "shortcut")).1),
          (chainParts scope 0 main).2 ++ (sc.parts (inScope scope "shortcut")).2) :=
      congrArg (Prod.mk _) (Layer.allArrays_append _ _)
    show Gathers f _ _ ((make main (some sc)).parts scope)
    rw [hparts]
    exact hmain.seq (sc.visit_gathers f (inScope scope "shortcut")) (parts scope)
      (fun main sc => make main (some sc)) (fun main sc => make main (some sc)) hparts

end Block

namespace Level

/-- What a reset leaves of an edge, and its arrays. -/
def edgeParts (scope : String) (o : Option Block) : Option Block × List NamedArray :=
  (o.map (Block.reset scope), Block.allArrays (o.toList.map (scope, ·)))

/-- What a reset leaves, and the arrays. -/
def parts (scope : String) (level : Nat) (l : Level) : Level × List NamedArray :=
  (l.reset scope level, Block.allArrays (l.blocks scope level))

theorem visitEdge_gathers (scope : String) (o : Option Block) :
    Gathers f (visitEdge scope f o) (edgeParts scope) (edgeParts scope o) := by
  cases o with
  | none => exact Gathers.pure rfl
  | some b =>
    have hparts (b : Block) :
        edgeParts scope (some b) = (some (b.parts scope).1, (b.parts scope).2) :=
      congrArg (Prod.mk _) ((Block.allArrays_cons _ _).trans (List.append_nil _))
    rw [hparts]
    have h := (b.visit_gathers f scope).map (edgeParts scope) some some hparts
    rwa [bind_pure_comp] at h

theorem visit_gathers (scope : String) (level : Nat) (l : Level) :
    Gathers f (l.visit scope f level) (parts scope level) (l.parts scope level) := by
  obtain ⟨inputs, outputs, horizontal, vertical⟩ := l
  have hparts (h v : Option Block) : parts scope level ⟨inputs, outputs, h, v⟩
      = (⟨inputs, outputs, (edgeParts (horizontalScope scope level) h).1,
            (edgeParts (verticalScope scope level) v).1⟩,
          (edgeParts (horizontalScope scope level) h).2 ++
            (edgeParts (verticalScope scope level) v).2) :=
    congrArg (Prod.mk _) (Block.allArrays_append _ _)
  rw [hparts]
  exact (visitEdge_gathers f (horizontalScope scope level) horizontal).seq
    (visitEdge_gathers f (verticalScope scope level) vertical) (parts scope level)
    (⟨inputs, outputs, ·, ·⟩) (⟨inputs, outputs, ·, ·⟩) hparts

end Level

namespace Pyramid

variable {d : Direction}

/-- What a reset leaves of some levels, and their arrays. -/
def levelParts (scope : String) (level : Nat) (levels : List Level) :
    List Level × List NamedArray :=
  (resetLevels scope level levels, Block.allArrays (levelBlocks scope level levels))

/-- What a reset leaves, and the arrays. -/
def parts (p : Pyramid d) : Pyramid d × List NamedArray := (p.reset, p.arrays)

theorem visitLevels_gathers (scope : String) (level : Nat) (levels : List Level) :
    Gathers f (visitLevels scope f level levels) (levelParts scope level)
      (levelParts scope level levels) := by
  induction levels generalizing level with
  | nil => exact Gathers.pure rfl
  | cons l rest ih =>
    have hparts (l : Level) (rest : List Level) : levelParts scope level (l :: rest)
        = ((l.parts scope level).1 :: (levelParts scope (level + 1) rest).1,
          (l.parts scope level).2 ++ (levelParts scope (level + 1) rest).2) :=
      congrArg (Prod.mk _) (Block.allArrays_append _ _)
    rw [hparts]
    exact (l.visit_gathers f scope level).seq (ih (level + 1)) (levelParts scope level) List.cons
      List.cons hparts

theorem visit_gathers (p : Pyramid d) : Gathers f (p.visit f) parts p.parts :=
  (visitLevels_gathers f p.scope 0 p.levels).map parts (⟨p.scope, ·⟩) (⟨p.scope, ·⟩) fun _ => rfl

end Pyramid

namespace Heads

/-- What a reset leaves, and the arrays. -/
def parts (h : Heads Block) : Heads Block × List NamedArray :=
  (Id.run (h.traverse fun name block => block.reset (Network.headScope name)),
    Block.allArrays h.blocks)

/-- The heads in a tuple. -/
def ofTuple {α : Type} (t : α × α × α × α) : Heads α := ⟨t.1, t.2.1, t.2.2.1, t.2.2.2⟩

theorem visit_gathers (h : Heads Block) :
    Gathers f (h.traverse fun name block => block.visit (Network.headScope name) f) parts
      h.parts := by
  obtain ⟨verticalOne, horizontalOne, verticalTwo, horizontalTwo⟩ := h
  have hhead (name : String) (b : Block) := b.visit_gathers f (Network.headScope name)
  have hall := (hhead "vertical_one" verticalOne).pair <|
    (hhead "horizontal_one" horizontalOne).pair <|
      (hhead "vertical_two" verticalTwo).pair (hhead "horizontal_two" horizontalTwo)
  have harrays (a b c d : Block) :
      Block.allArrays (blocks ⟨a, b, c, d⟩)
        = (a.parts (Network.headScope "vertical_one")).2 ++
          ((b.parts (Network.headScope "horizontal_one")).2 ++
            ((c.parts (Network.headScope "vertical_two")).2 ++
              (d.parts (Network.headScope "horizontal_two")).2)) := by
    simp [blocks, Block.parts, Block.allArrays]
  have hmap := hall.map parts ofTuple ofTuple fun _ => congrArg (Prod.mk _) (harrays _ _ _ _)
  simp only [bind_assoc, pure_bind] at hmap
  rw [parts, harrays]
  exact hmap

end Heads

namespace Network

/-- What a reset leaves, and the arrays. -/
def parts (net : Network) : Network × List NamedArray := (net.reset, net.arrays)

/-- A traversal of a network in any monad. -/
theorem visit_gathers (net : Network) : Gathers f (net.visit f) parts net.parts := by
  obtain ⟨config, input, encoder, decoder, heads⟩ := net
  have hall := (input.visit_gathers f "input").pair <|
    (encoder.visit_gathers f).pair <| (decoder.visit_gathers f).pair (heads.visit_gathers f)
  let make (t : Convolution × Encoder × Decoder × Heads Block) : Network :=
    ⟨config, t.1, t.2.1, t.2.2.1, t.2.2.2⟩
  have harrays (i : Convolution) (e : Encoder) (d : Decoder) (h : Heads Block) :
      arrays ⟨config, i, e, d, h⟩
        = (i.parts "input").2 ++ (e.parts.2 ++ (d.parts.2 ++ h.parts.2)) := by
    simp [arrays, layers, blocks, Convolution.parts, Layer.arrays, Pyramid.parts, Pyramid.arrays,
      Heads.parts, Block.allArrays]
  have hmap := hall.map parts make make fun _ => congrArg (Prod.mk _) (harrays _ _ _ _)
  simp only [bind_assoc, pure_bind] at hmap
  rw [parts, harrays]
  exact hmap

end Network

end Owners

/-! ## Traversals that look -/

/-- A run with a state shows what became of the arrays and of the state. -/
theorem Gathers.run_state {σ α β : Type} {f : Visit (StateM σ)} {run : StateM σ α}
    {view : α → β × List NamedArray} {parts : β × List NamedArray} (h : Gathers f run view parts)
    (s : σ) :
    view (run.run s).1 = (parts.1, ((parts.2.mapM f.onArray).run s).1) ∧
      (run.run s).2 = ((parts.2.mapM f.onArray).run s).2 := by
  have hrun := congrArg (StateT.run · s) h
  exact ⟨congrArg Prod.fst hrun, congrArg Prod.snd hrun⟩

/-- The run over a list is that of its first element and, from the state it leaves, that of the
others. -/
theorem run_mapM_cons {m : Type → Type} [Monad m] [LawfulMonad m] {σ α β : Type}
    {g : α → StateT σ m β} {a : α} {rest : List α} {s s' s'' : σ} {b : β} {bs : List β}
    (hfirst : (g a).run s = pure (b, s')) (hrest : (rest.mapM g).run s' = pure (bs, s'')) :
    ((a :: rest).mapM g).run s = pure (b :: bs, s'') := by
  simp [hfirst, hrest]

theorem Visit.run_look {σ : Type} (g : Slot → Array Float32 → σ → σ) (arrays : List NamedArray)
    (s : σ) :
    (arrays.mapM (Visit.look g).onArray).run s
      = (arrays, arrays.foldl (fun s a => g ⟨a.1, a.2.shape⟩ a.2.data s) s) := by
  induction arrays generalizing s with
  | nil => rfl
  | cons a rest ih => exact run_mapM_cons rfl (ih _)

/-- Notes every array, the last one first. -/
def Visit.collect : Visit (StateM (List NamedArray)) :=
  Visit.look fun slot values seen => (slot.name, ⟨slot.shape, values⟩) :: seen

/-- What a traversal reports of an owner, array by array. -/
def Pyramid.report {d : Direction} (p : Pyramid d) : List NamedArray :=
  ((p.visit Visit.collect).run []).2.reverse

theorem Pyramid.report_eq {d : Direction} (p : Pyramid d) : p.report = p.arrays := by
  rw [report, ((p.visit_gathers Visit.collect).run_state []).2, Visit.collect, Visit.run_look]
  show (p.arrays.foldl (fun seen a => a :: seen) []).reverse = p.arrays
  simp

namespace Network

/-- What a traversal reports of a network, array by array. -/
def report (net : Network) : List NamedArray := ((net.visit Visit.collect).run []).2.reverse

theorem report_eq (net : Network) : net.report = net.arrays := by
  rw [report, ((net.visit_gathers Visit.collect).run_state []).2, Visit.collect, Visit.run_look]
  show (net.arrays.foldl (fun seen a => a :: seen) []).reverse = net.arrays
  simp

theorem inventory_eq (net : Network) :
    net.inventory = net.arrays.map fun a => (a.1, a.2.shape) := by
  rw [inventory, ((net.visit_gathers _).run_state []).2, Visit.run_look]
  show (net.arrays.foldl (fun seen a => (a.1, a.2.shape) :: seen) []).reverse = _
  simp

theorem inventory_names (net : Network) :
    net.inventory.map Prod.fst = net.arrays.map Prod.fst := by
  rw [inventory_eq, List.map_map]
  rfl

theorem inventory_length (net : Network) : net.inventory.length = net.arrays.length := by
  rw [inventory_eq, List.length_map]

end Network

end Midframe
