import Midframe.Block
import Midframe.Proofs.Tensor.Entries

/-!
# Blocks entry by entry

A layer, a shortcut and a block treat the entries of a batch one by one, whatever their parameters:
a block that is applied to a batch and to an entry of it either fails on both, or gives a batch and
its entry again.
-/

namespace Midframe

variable {n b : Nat} (hb : b < n) {x y : Tensor Float32}
include hb

theorem Convolution.forward_entry (c : Convolution) (h : x.IsEntry n b y) :
    Corresponds (Tensor.IsEntry n b) (c.forward x) (c.forward y) :=
  h.convolve hb _ _ _

namespace Layer

theorem forward_entry (layer : Layer) (h : x.IsEntry n b y) :
    Corresponds (Tensor.IsEntry n b) (layer.forward x) (layer.forward y) := by
  cases layer with
  | evenize border => exact h.padToEven hb border
  | conv c => exact c.forward_entry hb h
  | up algorithm =>
    cases algorithm with
    | nearest => exact h.resize hb 2 .nearest
    | bilinear => exact h.resize hb 2 .bilinear
    | pyramid => exact h.expand hb
    | shuffle => exact h.shuffle hb 2
  | prelu initial slope => exact .ok (h.prelu hb slope)
  | resample scale => exact h.resize hb scale .bilinear

theorem chain_entry (layers : List Layer) (h : x.IsEntry n b y) :
    Corresponds (Tensor.IsEntry n b) (layers.foldlM (fun x layer => layer.forward x) x)
      (layers.foldlM (fun x layer => layer.forward x) y) :=
  .foldlM (fun _ _ layer h => layer.forward_entry hb h) layers h

end Layer

theorem Shortcut.projected_entry (s : Shortcut) (h : x.IsEntry n b y) :
    Corresponds (Tensor.IsEntry n b)
      (match s.projection with
        | some c => c.forward x
        | none => .ok x)
      (match s.projection with
        | some c => c.forward y
        | none => .ok y) := by
  cases s.projection with
  | none => exact .ok h
  | some c => exact c.forward_entry hb h

theorem Shortcut.forward_entry (s : Shortcut) (h : x.IsEntry n b y) :
    Corresponds (Tensor.IsEntry n b) (s.forward x) (s.forward y) := by
  unfold forward
  cases s.scale with
  | none => exact s.projected_entry hb h
  | some scale =>
    exact ((Layer.resample scale).forward_entry hb h).bind fun _ _ => s.projected_entry hb

namespace Block

theorem evenized_entry (block : Block) (h : x.IsEntry n b y) :
    Corresponds (Tensor.IsEntry n b) (block.evenized x) (block.evenized y) := by
  unfold evenized
  cases block.evenize with
  | none => exact .ok h
  | some border => exact h.padToEven hb border

/-- A block applied to a batch and to an entry of it. -/
theorem forward_entry (block : Block) (h : x.IsEntry n b y) :
    Corresponds (Tensor.IsEntry n b) (block.forward x) (block.forward y) := by
  unfold forward
  refine (block.evenized_entry hb h).bind fun x y h => ?_
  refine (Layer.chain_entry hb block.main h).bind fun out out' hout => ?_
  cases block.shortcut with
  | none => exact .ok hout
  | some shortcut =>
    refine (shortcut.forward_entry hb h).bind fun skip skip' hskip => ?_
    exact (hout.add hb hskip).mapError _ _

end Block

end Midframe
