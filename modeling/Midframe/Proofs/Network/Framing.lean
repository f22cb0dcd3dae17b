import Midframe.Proofs.Network.Synthesis
import Midframe.Proofs.Tensor.Padding

/-!
# Frames with repeated edges

A picture is extended to even extents before it enters the network, and once more as far as the
synthesis kernels reach. Both times its edges are repeated, so the kernels see what they would see
around the picture itself: the two steps are one.
-/

namespace Midframe

namespace Tensor

variable {α : Type} [Scalar α] {t v w : Tensor α}

/-- A channel of ones behind the others. -/
def withOnes (t : Tensor α) : Except Fault (Tensor α) :=
  concatChannels [t, replicate { t.shape with channels := 1 } Scalar.one]

theorem synthesisFrame_eq (t : Tensor α) (kernelSize : Nat) : t.synthesisFrame kernelSize =
    t.withOnes >>= fun w => w.pad (Padding.uniform (kernelSize / 2)) .replicate := rfl

theorem withOnes_of_pad {p : Padding} (hv : t.pad p .replicate = .ok v) (hw : t.withOnes = .ok w) :
    ∃ u, v.withOnes = .ok u ∧ w.pad p .replicate = .ok u := by
  obtain ⟨hadmits, htable⟩ := pad_eq_ok.mp hv
  obtain ⟨w', hw', hwide⟩ := t.concatChannels_ones
  obtain rfl : w' = w := Except.ok.inj (hw'.symm.trans hw)
  obtain ⟨u, hu, hjoined⟩ := v.concatChannels_ones
  refine ⟨u, hu, pad_eq_ok.mpr ⟨?_, ?_⟩⟩
  · rw [hwide.shape]
    exact hadmits
  have hshape : w'.shape.padded p = { v.shape with channels := v.shape.channels + 1 } := by
    rw [hwide.shape, htable.shape]
    rfl
  rw [hshape]
  refine hjoined.congr fun n c y x hn hc hy hx => ?_
  rw [htable.shape] at hn hc hy hx ⊢
  -- The position that is repeated is one of the array, in whichever channel it is read.
  have hrow : clampedIndex t.shape.height (y - p.top) < t.shape.height :=
    Border.resolve?_lt hadmits.rows hy (Border.resolve?_replicate _ _)
  have hcolumn : clampedIndex t.shape.width (x - p.left) < t.shape.width :=
    Border.resolve?_lt hadmits.columns hx (Border.resolve?_replicate _ _)
  have hwindow : w'.getBeyond .replicate n c (y - p.top) (x - p.left) =
      w'.get n c (clampedIndex t.shape.height (y - p.top))
        (clampedIndex t.shape.width (x - p.left)) := by
    simp only [getBeyond, Border.resolve?_replicate, hwide.shape]
  rw [hwindow, hwide.get hn hc hrow hcolumn]
  by_cases hchannel : c < t.shape.channels
  · have hown : c < (t.shape.padded p).channels := hchannel
    rw [if_pos hchannel, if_pos hown, htable.get hn hown hy hx]
    simp only [getBeyond, Border.resolve?_replicate]
  · have hown : ¬c < (t.shape.padded p).channels := hchannel
    rw [if_neg hchannel, if_neg hown]

theorem synthesisFrame_of_pad (p : Padding) (kernelSize : Nat) (u : Tensor α) :
    (t.pad p .replicate >>= fun v => v.synthesisFrame kernelSize) = .ok u ↔
      (t.withOnes >>= fun w => w.pad (p + Padding.uniform (kernelSize / 2)) .replicate)
        = .ok u := by
  obtain ⟨w, hw, hwide⟩ := t.concatChannels_ones
  have hones : t.withOnes = .ok w := hw
  rw [hones]
  show _ ↔ w.pad (p + Padding.uniform (kernelSize / 2)) .replicate = .ok u
  rw [← (w.pad_pad p _).2, bind_eq_ok, bind_eq_ok]
  constructor
  · rintro ⟨v, hv, hu⟩
    obtain ⟨w', hw', hpadded⟩ := withOnes_of_pad hv hones
    rw [synthesisFrame_eq, hw'] at hu
    exact ⟨w', hpadded, hu⟩
  · rintro ⟨w', hpadded, hu⟩
    -- The channel of ones changes no extent, so the frame alone can be padded as well.
    have hadmits : Border.replicate.Admits p t.shape := by
      have h := (pad_eq_ok.mp hpadded).1
      rw [hwide.shape] at h
      exact h
    obtain ⟨v, hv, -⟩ := pad_of_admits hadmits
    obtain ⟨w'', hw'', hagain⟩ := withOnes_of_pad hv hones
    obtain rfl : w'' = w' := Except.ok.inj (hagain.symm.trans hpadded)
    refine ⟨v, hv, ?_⟩
    rw [synthesisFrame_eq, hw'']
    exact hu

/-- Padding twice with zeros, or twice with repeated edges, is padding once by the sum of both
amounts on every edge: one succeeds exactly if the other does, and they give the same array. So a
frame that is extended to even extents and then prepared for kernels is the frame itself, joined by
ones and padded once. -/
theorem pad_twice (t : Tensor α) :
    (∀ p q : Padding, (t.pad p .zeros >>= fun u => u.pad q .zeros) = t.pad (p + q) .zeros) ∧
    (∀ p q : Padding,
      (t.pad p .replicate >>= fun u => u.pad q .replicate) = t.pad (p + q) .replicate) ∧
    ∀ (kernelSize : Nat) (u : Tensor α),
      (t.padToEven .replicate >>= fun v => v.synthesisFrame kernelSize) = .ok u ↔
        (t.withOnes >>= fun w => w.pad (Padding.trailing (t.shape.height % 2) (t.shape.width % 2) +
          Padding.uniform (kernelSize / 2)) .replicate) = .ok u :=
  ⟨fun p q => (t.pad_pad p q).1, fun p q => (t.pad_pad p q).2,
    fun kernelSize u => t.synthesisFrame_of_pad _ kernelSize u⟩

end Tensor

end Midframe
