import Midframe.Proofs.Parameter.Traversal

/-!
# Owners by their parts

An owner is determined by its parts: two owners of which a reset leaves the same and whose arrays
are the same are equal. Where arrays of several parts stand one behind the other, what a reset
leaves tells where one part ends.
-/

namespace Midframe

/-- A view through which values can be told apart, and whose arrays are as many as the rest asks
for. -/
structure Separates {α β : Type} (view : α → β × List NamedArray) : Prop where
  /-- Values of the same parts are equal. -/
  injective : Function.Injective view
  /-- The rest fixes the number of arrays. -/
  length : ∀ x y, (view x).1 = (view y).1 → (view x).2.length = (view y).2.length

/-- A view of what may be absent. -/
def optionView {α β : Type} (view : α → β × List NamedArray) :
    Option α → Option β × List NamedArray
  | none => (none, [])
  | some x => (some (view x).1, (view x).2)

theorem optionView_fst {α β : Type} (view : α → β × List NamedArray) (o : Option α) :
    (optionView view o).1 = o.map fun x => (view x).1 := by
  cases o <;> rfl

/-- A view of a list whose elements are viewed by their positions, which start at `index`. -/
def listView {α β : Type} (view : Nat → α → β × List NamedArray) (index : Nat) :
    List α → List β × List NamedArray
  | [] => ([], [])
  | x :: xs =>
    ((view index x).1 :: (listView view (index + 1) xs).1,
      (view index x).2 ++ (listView view (index + 1) xs).2)

namespace Separates

variable {α α₁ α₂ β β₁ β₂ : Type} {view : α → β × List NamedArray}
  {view₁ : α₁ → β₁ × List NamedArray} {view₂ : α₂ → β₂ × List NamedArray}

/-- A view is as good as that of a component which has all arrays, if the rest fixes everything
else. -/
theorem of_component (h : Separates view₁) (out : α → α₁)
    (harrays : ∀ x, (view x).2 = (view₁ (out x)).2)
    (hrest : ∀ x y, (view x).1 = (view y).1 → (view₁ (out x)).1 = (view₁ (out y)).1)
    (hout : ∀ x y, (view x).1 = (view y).1 → out x = out y → x = y) : Separates view := by
  refine ⟨fun x y hxy => ?_, fun x y hxy => ?_⟩
  · have hfirst := congrArg Prod.fst hxy
    have hsecond := congrArg Prod.snd hxy
    rw [harrays, harrays] at hsecond
    exact hout x y hfirst (h.injective (Prod.ext (hrest x y hfirst) hsecond))
  · rw [harrays, harrays]
    exact h.length _ _ (hrest x y hxy)

theorem pair (h₁ : Separates view₁) (h₂ : Separates view₂) :
    Separates (Gathers.pairView view₁ view₂) := by
  constructor
  · rintro ⟨a, b⟩ ⟨a', b'⟩ h
    obtain ⟨ha, hb⟩ := Prod.mk.inj (congrArg Prod.fst h)
    obtain ⟨ha', hb'⟩ := List.append_inj (congrArg Prod.snd h) (h₁.length a a' ha)
    exact Prod.ext (h₁.injective (Prod.ext ha ha')) (h₂.injective (Prod.ext hb hb'))
  · rintro ⟨a, b⟩ ⟨a', b'⟩ h
    obtain ⟨ha, hb⟩ := Prod.mk.inj h
    simp only [Gathers.pairView, List.length_append, h₁.length a a' ha, h₂.length b b' hb]

theorem option (h : Separates view) : Separates (optionView view) := by
  constructor
  · intro x y hxy
    cases x with
    | none =>
      cases y with
      | none => rfl
      | some y => cases congrArg Prod.fst hxy
    | some x =>
      cases y with
      | none => cases congrArg Prod.fst hxy
      | some y =>
        obtain ⟨hfirst, hsecond⟩ := Prod.mk.inj hxy
        exact congrArg some (h.injective (Prod.ext (Option.some.inj hfirst) hsecond))
  · intro x y hxy
    cases x with
    | none =>
      cases y with
      | none => rfl
      | some y => cases hxy
    | some x =>
      cases y with
      | none => cases hxy
      | some y => exact h.length x y (Option.some.inj hxy)

theorem list {view : Nat → α → β × List NamedArray} (h : ∀ i, Separates (view i)) (index : Nat) :
    Separates (listView view index) := by
  constructor
  · intro xs
    induction xs generalizing index with
    | nil =>
      intro ys hxy
      cases ys with
      | nil => rfl
      | cons y ys => cases congrArg Prod.fst hxy
    | cons x xs ih =>
      intro ys hxy
      cases ys with
      | nil => cases congrArg Prod.fst hxy
      | cons y ys =>
        obtain ⟨hx, hxs⟩ := List.cons.inj (congrArg Prod.fst hxy)
        obtain ⟨hx', hxs'⟩ := List.append_inj (congrArg Prod.snd hxy) ((h index).length x y hx)
        rw [(h index).injective (Prod.ext hx hx'), ih (index + 1) (Prod.ext hxs hxs')]
  · intro xs
    induction xs generalizing index with
    | nil =>
      intro ys hxy
      cases ys with
      | nil => rfl
      | cons y ys => cases hxy
    | cons x xs ih =>
      intro ys hxy
      cases ys with
      | nil => cases hxy
      | cons y ys =>
        obtain ⟨hx, hxs⟩ := List.cons.inj hxy
        simp only [listView, List.length_append, (h index).length x y hx,
          ih (index + 1) ys hxs]

end Separates

/-! ## Layers and blocks -/

theorem Convolution.parts_separates (scope : String) : Separates (parts scope) := by
  constructor
  · rintro ⟨⟨shape, weight⟩, bias, windows⟩ ⟨⟨shape', weight'⟩, bias', windows'⟩ h
    obtain rfl : shape = shape' := congrArg (fun p => p.1.weight.shape) h
    obtain rfl : windows = windows' := congrArg (fun p => p.1.windows) h
    cases bias <;> cases bias' <;> simp_all [parts, arrays, Vector.toArray_inj]
  · rintro ⟨⟨shape, weight⟩, bias, windows⟩ ⟨⟨shape', weight'⟩, bias', windows'⟩ h
    have hbias : bias.isSome = bias'.isSome := by
      simpa [parts, reset] using congrArg (·.bias.isSome) h
    cases bias <;> cases bias' <;> simp_all [parts, arrays]

theorem Layer.parts_separates (scope : String) : Separates (parts scope) := by
  have hconv := Convolution.parts_separates scope
  constructor
  · intro a b h
    have hreset : a.reset scope = b.reset scope := congrArg Prod.fst h
    have harrays : a.arrays scope = b.arrays scope := congrArg Prod.snd h
    cases a with
    | conv c =>
      cases b with
      | conv c' => exact congrArg conv (hconv.injective (Prod.ext (conv.inj hreset) harrays))
      | _ => cases hreset
    | prelu initial slope =>
      cases b with
      | prelu initial' slope' => simp_all [reset, arrays]
      | _ => cases hreset
    | _ =>
      cases b with
      | conv c' => cases hreset
      | prelu initial' slope' => cases hreset
      | _ => exact hreset
  · intro a b h
    cases a with
    | conv c =>
      cases b with
      | conv c' => exact hconv.length c c' (conv.inj h)
      | _ => cases h
    | prelu initial slope =>
      cases b with
      | prelu initial' slope' => rfl
      | _ => cases h
    | _ =>
      cases b with
      | conv c' => cases h
      | prelu initial' slope' => cases h
      | _ => rfl

theorem Shortcut.parts_separates (scope : String) : Separates (parts scope) := by
  refine (Convolution.parts_separates scope).option.of_component projection ?_ ?_ ?_
  · rintro ⟨policy, scale, projection⟩
    cases projection with
    | none => rfl
    | some c => exact List.append_nil _
  · intro s t h
    rw [optionView_fst, optionView_fst]
    exact congrArg Shortcut.projection h
  · rintro ⟨policy, scale, projection⟩ ⟨policy', scale', projection'⟩ h rfl
    obtain rfl : policy = policy' := congrArg Shortcut.policy h
    obtain rfl : scale = scale' := congrArg Shortcut.scale h
    rfl

namespace Block

theorem chainParts_eq (scope : String) (index : Nat) (main : List Layer) :
    chainParts scope index main
      = listView (fun i => Layer.parts (inScope scope s!"main.{i}")) index main := by
  induction main generalizing index with
  | nil => rfl
  | cons layer rest ih =>
    rw [listView, ← ih]
    rfl

theorem chainParts_separates (scope : String) (index : Nat) :
    Separates (chainParts scope index) := by
  rw [funext (chainParts_eq scope index)]
  exact .list (fun i => Layer.parts_separates _) index

theorem parts_separates (scope : String) : Separates (parts scope) := by
  have hmain := chainParts_separates scope 0
  have hshortcut := (Shortcut.parts_separates (inScope scope "shortcut")).option
  refine (hmain.pair hshortcut).of_component (fun b => (b.main, b.shortcut)) ?_ ?_ ?_
  · rintro ⟨source, spec, inputs, outputs, stride, evenize, main, shortcut⟩
    cases shortcut <;> exact Layer.allArrays_append _ _
  · intro a b h
    have hmain : (chainParts scope 0 a.main).1 = (chainParts scope 0 b.main).1 :=
      congrArg Block.main h
    refine Prod.ext hmain ?_
    show (optionView _ a.shortcut).1 = (optionView _ b.shortcut).1
    rw [optionView_fst, optionView_fst]
    exact congrArg Block.shortcut h
  · rintro ⟨_, _, _, _, _, _, main, shortcut⟩ ⟨_, _, _, _, _, _, main', shortcut'⟩ h hout
    cases hout
    simp_all [parts, reset]

end Block

/-! ## Levels, pyramids and networks -/

namespace Level

theorem edgeParts_separates (scope : String) : Separates (edgeParts scope) := by
  refine (Block.parts_separates scope).option.of_component id ?_ ?_ fun _ _ _ h => h
  · intro o
    cases o with
    | none => rfl
    | some b => exact (Block.allArrays_cons _ _).trans (List.append_nil _)
  · intro o o' h
    rw [optionView_fst, optionView_fst]
    exact h

theorem parts_separates (scope : String) (level : Nat) : Separates (parts scope level) := by
  have hhorizontal := edgeParts_separates (horizontalScope scope level)
  have hvertical := edgeParts_separates (verticalScope scope level)
  refine (hhorizontal.pair hvertical).of_component (fun l => (l.horizontal, l.vertical)) ?_ ?_ ?_
  · intro l
    exact Block.allArrays_append _ _
  · intro l l' h
    exact Prod.ext (congrArg Level.horizontal h) (congrArg Level.vertical h)
  · rintro ⟨inputs, outputs, _, _⟩ ⟨inputs', outputs', _, _⟩ h hout
    cases hout
    obtain rfl : inputs = inputs' := congrArg Level.inputs h
    obtain rfl : outputs = outputs' := congrArg Level.outputs h
    rfl

end Level

namespace Pyramid

variable {d : Direction}

theorem levelParts_eq (scope : String) (level : Nat) (levels : List Level) :
    levelParts scope level levels = listView (Level.parts scope) level levels := by
  induction levels generalizing level with
  | nil => rfl
  | cons l rest ih =>
    rw [listView, ← ih]
    exact congrArg (Prod.mk _) (Block.allArrays_append _ _)

theorem levelParts_separates (scope : String) (level : Nat) :
    Separates (levelParts scope level) := by
  rw [funext (levelParts_eq scope level)]
  exact .list (Level.parts_separates scope) level

theorem parts_separates : Separates (parts (d := d)) := by
  constructor
  · rintro ⟨scope, levels⟩ ⟨scope', levels'⟩ h
    obtain rfl : scope = scope' := congrArg (fun p => p.1.scope) h
    obtain ⟨hreset, harrays⟩ := Prod.mk.inj h
    have hlevels := congrArg Pyramid.levels hreset
    exact congrArg (mk scope)
      ((levelParts_separates scope 0).injective (Prod.ext hlevels harrays))
  · rintro ⟨scope, levels⟩ ⟨scope', levels'⟩ h
    obtain rfl : scope = scope' := congrArg Pyramid.scope h
    exact (levelParts_separates scope 0).length _ _ (congrArg Pyramid.levels h)

end Pyramid

theorem Heads.parts_separates : Separates Heads.parts := by
  have hhead (name : String) := Block.parts_separates (Network.headScope name)
  have hall := (hhead "vertical_one").pair <| (hhead "horizontal_one").pair <|
    (hhead "vertical_two").pair (hhead "horizontal_two")
  refine hall.of_component
    (fun h => (h.verticalOne, h.horizontalOne, h.verticalTwo, h.horizontalTwo)) ?_ ?_ ?_
  · intro h
    simp [parts, blocks, Gathers.pairView, Block.parts, Block.allArrays]
  · intro h h' hreset
    have hone := congrArg Heads.verticalOne hreset
    have htwo := congrArg Heads.horizontalOne hreset
    have hthree := congrArg Heads.verticalTwo hreset
    have hfour := congrArg Heads.horizontalTwo hreset
    exact Prod.ext hone (Prod.ext htwo (Prod.ext hthree hfour))
  · rintro ⟨_, _, _, _⟩ ⟨_, _, _, _⟩ - hout
    cases hout
    rfl

/-- A network is determined by what a reset leaves of it and by its arrays. -/
theorem Network.parts_separates : Separates Network.parts := by
  have hall := (Convolution.parts_separates "input").pair <|
    (Pyramid.parts_separates (d := .fineToCoarse)).pair <|
      (Pyramid.parts_separates (d := .coarseToFine)).pair Heads.parts_separates
  refine hall.of_component (fun net => (net.input, net.encoder, net.decoder, net.heads)) ?_ ?_ ?_
  · intro net
    simp [parts, arrays, layers, blocks, Gathers.pairView, Convolution.parts, Layer.arrays,
      Pyramid.parts, Pyramid.arrays, Heads.parts, Block.allArrays]
  · intro net net' hreset
    have hinput := congrArg Network.input hreset
    have hencoder := congrArg Network.encoder hreset
    have hdecoder := congrArg Network.decoder hreset
    have hheads := congrArg Network.heads hreset
    exact Prod.ext hinput (Prod.ext hencoder (Prod.ext hdecoder hheads))
  · rintro ⟨config, _, _, _, _⟩ ⟨config', _, _, _, _⟩ hreset hout
    cases hout
    obtain rfl : config = config' := congrArg Network.config hreset
    rfl

end Midframe
