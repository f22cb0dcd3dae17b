import Midframe.Proofs.Tensor.Extents

/-!
# Samples of tensors

A sample is read at the four indices that it was made for: they are recovered from its position by
division, the fastest index first.
-/

namespace Midframe

/-- The quotient of a multiple and a remainder. -/
theorem mul_add_div_of_lt {a b r : Nat} (h : r < b) : (a * b + r) / b = a := by
  rw [Nat.mul_comm, Nat.mul_add_div (Nat.zero_lt_of_lt h), Nat.div_eq_of_lt h, Nat.add_zero]

namespace Shape

variable {s : Shape} {n c y x : Nat}

theorem offset_div_width (hx : x < s.width) :
    s.offset n c y x / s.width = (n * s.channels + c) * s.height + y := mul_add_div_of_lt hx

theorem offset_div_rows (hy : y < s.height) (hx : x < s.width) :
    s.offset n c y x / (s.height * s.width) = n * s.channels + c := by
  rw [Nat.mul_comm, ← Nat.div_div_eq_div_mul, offset_div_width hx, mul_add_div_of_lt hy]

theorem offset_div_channels (hc : c < s.channels) (hy : y < s.height) (hx : x < s.width) :
    s.offset n c y x / (s.channels * s.height * s.width) = n := by
  rw [Nat.mul_assoc, Nat.mul_comm, ← Nat.div_div_eq_div_mul, offset_div_rows hy hx,
    mul_add_div_of_lt hc]

/-- Indices within the shape are those of a sample. -/
theorem offset_lt (hn : n < s.batch) (hc : c < s.channels) (hy : y < s.height)
    (hx : x < s.width) : s.offset n c y x < s.size := by
  unfold size
  have hpos : 0 < s.channels * s.height * s.width :=
    Nat.mul_pos (Nat.mul_pos (Nat.zero_lt_of_lt hc) (Nat.zero_lt_of_lt hy)) (Nat.zero_lt_of_lt hx)
  rw [Nat.mul_assoc, Nat.mul_assoc, ← Nat.mul_assoc s.channels, ← Nat.div_lt_iff_lt_mul hpos,
    offset_div_channels hc hy hx]
  exact hn

end Shape

namespace Tensor

variable {α : Type} [Scalar α]

/-- A tensor is read at four indices as it was made there. -/
theorem get_ofFn {s : Shape} (f : Nat → Nat → Nat → Nat → α) {n c y x : Nat} (hn : n < s.batch)
    (hc : c < s.channels) (hy : y < s.height) (hx : x < s.width) :
    (ofFn s f).get n c y x = f n c y x := by
  have hwidth : s.offset n c y x % s.width = x := Nat.mul_add_mod_of_lt hx
  have hheight : s.offset n c y x / s.width % s.height = y := by
    rw [Shape.offset_div_width hx, Nat.mul_add_mod_of_lt hy]
  have hchannels : s.offset n c y x / (s.height * s.width) % s.channels = c := by
    rw [Shape.offset_div_rows hy hx, Nat.mul_add_mod_of_lt hc]
  have hlt : (ofFn s f).shape.offset n c y x < (ofFn s f).shape.size :=
    Shape.offset_lt hn hc hy hx
  refine (dif_pos hlt).trans ((Vector.getElem_ofFn hlt).trans ?_)
  simp only [shape_ofFn, hwidth, hheight, hchannels, Shape.offset_div_channels hc hy hx]

/-- The leading rows and columns of an array, sample by sample. -/
structure IsLeading (r t : Tensor α) (height width : Nat) : Prop where
  /-- The rows and columns that are left. -/
  shape : r.shape = t.shape.resized height width
  /-- They hold what they held. -/
  samples : ∀ n c y x, n < r.shape.batch → c < r.shape.channels → y < r.shape.height →
    x < r.shape.width → r.get n c y x = t.get n c y x

theorem IsLeading.refl (t : Tensor α) : t.IsLeading t t.shape.height t.shape.width :=
  ⟨rfl, fun _ _ _ _ _ _ _ _ => rfl⟩

theorem isLeading_of_crop {t r : Tensor α} {height width : Nat}
    (h : t.crop height width = .ok r) : r.IsLeading t height width := by
  unfold crop at h
  split at h
  · cases h
  · split at h
    · next hsame =>
      cases h
      obtain ⟨hheight, hwidth⟩ := Bool.and_eq_true_iff.mp hsame
      rw [beq_iff_eq.mp hheight, beq_iff_eq.mp hwidth]
      exact .refl t
    · cases h
      exact ⟨rfl, fun n c y x hn hc hy hx => get_ofFn t.get hn hc hy hx⟩

end Tensor

end Midframe
