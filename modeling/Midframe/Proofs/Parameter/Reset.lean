import Midframe.Proofs.Parameter.Traversal
import Midframe.Proofs.Network.Sound

/-!
# Resets

A reset finds every layer under the scope that a traversal gives it, and changes nothing but values:
a second reset changes nothing, and the arrays keep their names and extents.
-/

namespace Midframe

/-! ## Resetting twice -/

theorem Convolution.reset_reset (scope : String) (c : Convolution) :
    (c.reset scope).reset scope = c.reset scope := by
  obtain ⟨weight, bias, windows⟩ := c
  cases bias <;> rfl

theorem Layer.reset_reset (scope : String) (layer : Layer) :
    (layer.reset scope).reset scope = layer.reset scope := by
  cases layer with
  | conv c => exact congrArg conv (c.reset_reset scope)
  | _ => rfl

theorem Shortcut.reset_reset (scope : String) (s : Shortcut) :
    (s.reset scope).reset scope = s.reset scope := by
  simp only [reset, Option.map_map, Function.comp_def, Convolution.reset_reset]

namespace Block

theorem resetChain_resetChain (scope : String) (index : Nat) (main : List Layer) :
    resetChain scope index (resetChain scope index main) = resetChain scope index main := by
  induction main generalizing index with
  | nil => rfl
  | cons layer rest ih => exact congrArg₂ List.cons (layer.reset_reset _) (ih (index + 1))

theorem reset_reset (scope : String) (b : Block) :
    (b.reset scope).reset scope = b.reset scope := by
  simp only [reset, resetChain_resetChain, Option.map_map, Function.comp_def,
    Shortcut.reset_reset]

end Block

theorem Level.reset_reset (scope : String) (level : Nat) (l : Level) :
    (l.reset scope level).reset scope level = l.reset scope level := by
  simp only [reset, Option.map_map, Function.comp_def, Block.reset_reset]

namespace Pyramid

variable {d : Direction}

theorem resetLevels_resetLevels (scope : String) (level : Nat) (levels : List Level) :
    resetLevels scope level (resetLevels scope level levels) = resetLevels scope level levels := by
  induction levels generalizing level with
  | nil => rfl
  | cons l rest ih => exact congrArg₂ List.cons (l.reset_reset scope level) (ih (level + 1))

theorem reset_reset (p : Pyramid d) : p.reset.reset = p.reset :=
  congrArg (mk p.scope) (resetLevels_resetLevels p.scope 0 p.levels)

end Pyramid

namespace Heads

/-- All heads with their parameters as they were at first. -/
def reset (h : Heads Block) : Heads Block := h.parts.1

theorem reset_eq (h : Heads Block) :
    h.reset = ⟨h.verticalOne.reset (Network.headScope "vertical_one"),
      h.horizontalOne.reset (Network.headScope "horizontal_one"),
      h.verticalTwo.reset (Network.headScope "vertical_two"),
      h.horizontalTwo.reset (Network.headScope "horizontal_two")⟩ := rfl

theorem reset_reset (h : Heads Block) : h.reset.reset = h.reset := by
  simp only [reset_eq, Block.reset_reset]

end Heads

namespace Network

theorem reset_eq (net : Network) :
    net.reset = ⟨net.config, net.input.reset "input", net.encoder.reset, net.decoder.reset,
      net.heads.reset⟩ := rfl

theorem reset_reset (net : Network) : net.reset.reset = net.reset := by
  simp only [reset_eq, Convolution.reset_reset, Pyramid.reset_reset, Heads.reset_reset]

end Network

/-! ## The layers of what was reset -/

/-- A layer with its parameters as they were at first, under its scope. -/
def Layer.resetAt (p : String × Layer) : String × Layer := (p.1, p.2.reset p.1)

/-- A block with its parameters as they were at first, under its scope. -/
def Block.resetAt (p : String × Block) : String × Block := (p.1, p.2.reset p.1)

theorem Shortcut.layers_reset (scope : String) (s : Shortcut) :
    (s.reset scope).layers scope = (s.layers scope).map Layer.resetAt := by
  obtain ⟨policy, scale, projection⟩ := s
  cases projection <;> rfl

namespace Block

theorem chainLayers_reset (scope : String) (index : Nat) (main : List Layer) :
    chainLayers scope index (resetChain scope index main)
      = (chainLayers scope index main).map Layer.resetAt := by
  induction main generalizing index with
  | nil => rfl
  | cons layer rest ih => exact congrArg _ (ih (index + 1))

theorem layers_reset (scope : String) (b : Block) :
    (b.reset scope).layers scope = (b.layers scope).map Layer.resetAt := by
  obtain ⟨source, spec, inputs, outputs, stride, evenize, main, shortcut⟩ := b
  have hmain := chainLayers_reset scope 0 main
  cases shortcut with
  | none =>
    simp only [layers, reset, Option.map_none, hmain, List.append_nil]
  | some sc =>
    simp only [layers, reset, Option.map_some, hmain, sc.layers_reset, List.map_append]

theorem allLayers_resetAt (blocks : List (String × Block)) :
    allLayers (blocks.map resetAt) = (allLayers blocks).map Layer.resetAt := by
  induction blocks with
  | nil => rfl
  | cons p rest ih => simp [resetAt, layers_reset, ih]

end Block

theorem Level.blocks_reset (scope : String) (level : Nat) (l : Level) :
    (l.reset scope level).blocks scope level = (l.blocks scope level).map Block.resetAt := by
  obtain ⟨inputs, outputs, horizontal, vertical⟩ := l
  cases horizontal <;> cases vertical <;> rfl

namespace Pyramid

variable {d : Direction}

theorem levelBlocks_reset (scope : String) (level : Nat) (levels : List Level) :
    levelBlocks scope level (resetLevels scope level levels)
      = (levelBlocks scope level levels).map Block.resetAt := by
  induction levels generalizing level with
  | nil => rfl
  | cons l rest ih => simp only [resetLevels, levelBlocks, l.blocks_reset, ih, List.map_append]

theorem blocks_reset (p : Pyramid d) : p.reset.blocks = p.blocks.map Block.resetAt :=
  levelBlocks_reset p.scope 0 p.levels

end Pyramid

namespace Network

theorem blocks_reset (net : Network) : net.reset.blocks = net.blocks.map Block.resetAt := by
  simp only [blocks, reset_eq, Pyramid.blocks_reset, List.map_append]
  rfl

theorem layers_reset (net : Network) : net.reset.layers = net.layers.map Layer.resetAt := by
  rw [layers, blocks_reset, Block.allLayers_resetAt]
  rfl

end Network

/-! ## Names and extents -/

theorem Layer.lines_reset (scope : String) (layer : Layer) :
    ((layer.reset scope).arrays scope).map (fun a => (a.1, a.2.shape))
      = (layer.arrays scope).map fun a => (a.1, a.2.shape) := by
  cases layer with
  | conv c =>
    obtain ⟨weight, bias, windows⟩ := c
    cases bias <;> rfl
  | _ => rfl

theorem Layer.allLines_reset (layers : List (String × Layer)) :
    (allArrays (layers.map resetAt)).map (fun a => (a.1, a.2.shape))
      = (allArrays layers).map fun a => (a.1, a.2.shape) := by
  induction layers with
  | nil => rfl
  | cons p rest ih =>
    simp only [List.map_cons, allArrays_cons, List.map_append, ih, resetAt, lines_reset]

/-- A reset keeps the inventory. -/
theorem Network.inventory_reset (net : Network) : net.reset.inventory = net.inventory := by
  rw [inventory_eq, inventory_eq, arrays, arrays, layers_reset, Layer.allLines_reset]

end Midframe
