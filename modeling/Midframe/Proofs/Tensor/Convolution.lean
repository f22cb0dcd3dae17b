import Mathlib.Data.List.ProdSigma
import Midframe.Proofs.Scalar.Rational
import Midframe.Proofs.Tensor.Sweep

/-!
# What a convolution computes

A sample of a convolution is a fold over the taps of the kernels that reads the array around each
window, not the padded one: a weight that is not zero is multiplied with the sample at its position,
or with what stands for it beyond the edges.
-/

namespace Midframe

theorem foldl_product {α β γ : Type} (f : γ → α × β → γ) (l : List α) (m : List β) (c : γ) :
    (l ×ˢ m).foldl f c = l.foldl (fun acc a => m.foldl (fun acc b => f acc (a, b)) acc) c := by
  show (l.flatMap fun a => m.map (Prod.mk a)).foldl f c = _
  simp only [List.foldl_flatMap, List.foldl_map]

/-! ## Windows -/

namespace Windows

variable {w : Windows}

theorem count?_eq_some {n kernel count : Nat} : w.count? n kernel = some count ↔
    0 < w.stride ∧ kernel ≤ n + 2 * w.padding ∧
      count = (n + 2 * w.padding - kernel) / w.stride + 1 := by
  simp only [count?]
  split
  · next h =>
    simp only [Bool.or_eq_true, decide_eq_true_eq, beq_iff_eq] at h
    simp only [reduceCtorEq, false_iff]
    omega
  · next h =>
    simp only [Bool.or_eq_true, decide_eq_true_eq, beq_iff_eq, not_or, Nat.not_lt] at h
    simp only [Option.some.injEq, Nat.pos_of_ne_zero h.2, h.1, true_and, eq_comm]

/-- The shape of a convolution of an array of shape `s` with a weight. -/
def extents (w : Windows) (s weight : Shape) : Shape :=
  ⟨s.batch, weight.batch, (s.height + 2 * w.padding - weight.height) / w.stride + 1,
    (s.width + 2 * w.padding - weight.width) / w.stride + 1⟩

/-- An array of shape `s` can be convolved with a weight and a bias: the windows advance, inputs and
outputs match, the kernels fit into the padded array, and the border can be added. -/
structure Suits {α : Type} (w : Windows) (s weight : Shape) (bias : Option (Array α)) : Prop where
  advances : 0 < w.stride
  channels : weight.channels = s.channels
  bias : ∀ b ∈ bias, b.size = weight.batch
  height : weight.height ≤ s.height + 2 * w.padding
  width : weight.width ≤ s.width + 2 * w.padding
  border : w.border.Admits (Padding.uniform w.padding) s

section Suits

variable {α : Type} {s weight : Shape} {bias : Option (Array α)} (h : w.Suits s weight bias)
include h

/-- Every row of every window is one of the padded rows. -/
theorem Suits.rows {y ky : Nat} (hy : y < (w.extents s weight).height) (hky : ky < weight.height) :
    y * w.stride + ky < (s.padded (Padding.uniform w.padding)).height := by
  have hcovers := count?_covers (count?_eq_some.mpr ⟨h.advances, h.height, rfl⟩) hy hky
  rwa [Nat.two_mul, ← Nat.add_assoc] at hcovers

/-- Every column of every window is one of the padded columns. -/
theorem Suits.columns {x kx : Nat} (hx : x < (w.extents s weight).width)
    (hkx : kx < weight.width) :
    x * w.stride + kx < (s.padded (Padding.uniform w.padding)).width := by
  have hcovers := count?_covers (count?_eq_some.mpr ⟨h.advances, h.width, rfl⟩) hx hkx
  rwa [Nat.two_mul, ← Nat.add_assoc] at hcovers

end Suits

end Windows

namespace Tensor

variable {α : Type} [Scalar α]

/-! ## Samples -/

/-- The taps of a kernel: input channels, rows and columns in lexicographic order. -/
def taps (weight : Shape) : List (Nat × Nat × Nat) :=
  List.range weight.channels ×ˢ List.range weight.height ×ˢ List.range weight.width

theorem mem_taps {weight : Shape} {i ky kx : Nat} : (i, ky, kx) ∈ taps weight ↔
    i < weight.channels ∧ ky < weight.height ∧ kx < weight.width := by
  simp only [taps, List.mem_product, List.mem_range]

/-- A sample of a convolution: the products of the weights that are not zero with the samples that
they meet, added to the bias one after the other. -/
def convolvedSample (t weight : Tensor α) (bias : Option (Array α)) (w : Windows)
    (n o y x : Nat) : α :=
  ((taps weight.shape).filter fun (i, ky, kx) => !Scalar.isZero (weight.get o i ky kx)).foldl
    (fun acc (i, ky, kx) => acc + weight.get o i ky kx *
      t.getBeyond w.border n i ((y * w.stride + ky : Nat) - w.padding)
        ((x * w.stride + kx : Nat) - w.padding))
    (biasOf bias o)

/-- What is gathered under a window, as a fold over the taps. -/
theorem gather_eq_foldl (padded weight : Tensor α) (start : α) (n o top left : Nat) :
    gather padded weight start n o top left =
      ((taps weight.shape).filter fun (i, ky, kx) => !Scalar.isZero (weight.get o i ky kx)).foldl
        (fun acc (i, ky, kx) => acc + weight.get o i ky kx * padded.get n i (top + ky) (left + kx))
        start := by
  simp only [gather, fold_eq_foldl_range, taps, List.foldl_filter, foldl_product,
    Bool.not_eq_true', ← Bool.not_eq_true, ite_not]

variable {t weight padded r : Tensor α} {bias : Option (Array α)} {w : Windows}

/-- What is gathered under a window of the padded array can be read around the array itself. -/
theorem gather_eq_convolvedSample (h : w.Suits t.shape weight.shape bias)
    (hpad : t.pad (Padding.uniform w.padding) w.border = .ok padded) {n o y x : Nat}
    (hn : n < t.shape.batch) (hy : y < (w.extents t.shape weight.shape).height)
    (hx : x < (w.extents t.shape weight.shape).width) :
    gather padded weight (biasOf bias o) n o (y * w.stride) (x * w.stride)
      = t.convolvedSample weight bias w n o y x := by
  obtain ⟨-, htable⟩ := pad_eq_ok.mp hpad
  rw [gather_eq_foldl]
  refine List.foldl_ext _ _ _ fun acc tap htap => ?_
  obtain ⟨i, ky, kx⟩ := tap
  obtain ⟨hi, hky, hkx⟩ := mem_taps.mp (List.mem_of_mem_filter htap)
  simp only [htable.get hn (h.channels ▸ hi) (h.rows hy hky) (h.columns hx hkx)]
  rfl

theorem convolve_of_suits (h : w.Suits t.shape weight.shape bias) :
    ∃ padded, t.pad (Padding.uniform w.padding) w.border = .ok padded ∧
      t.convolve weight bias w = .ok (ofFn (w.extents t.shape weight.shape) fun n o y x =>
        gather padded weight (biasOf bias o) n o (y * w.stride) (x * w.stride)) := by
  obtain ⟨padded, hpad, -⟩ := pad_of_admits h.border
  have hbias : ((bias.map (·.size)).any (· != weight.shape.batch)) = false := by
    cases bias with
    | none => rfl
    | some b => simpa using h.bias b rfl
  have hheight := Windows.count?_eq_some.mpr ⟨h.advances, h.height, rfl⟩
  have hwidth := Windows.count?_eq_some.mpr ⟨h.advances, h.width, rfl⟩
  refine ⟨padded, hpad, ?_⟩
  unfold convolve
  simp only [h.channels, bne_self_eq_false, Bool.false_eq_true, ↓reduceIte, hbias, hheight, hwidth,
    hpad]
  rfl

theorem suits_of_convolve (h : t.convolve weight bias w = .ok r) :
    w.Suits t.shape weight.shape bias := by
  unfold convolve at h
  extract_lets outChannels at h
  split_ifs at h with hchannels hbias
  split at h
  · next height width hheight hwidth =>
    split at h
    · cases h
    · next padded hpad =>
      obtain ⟨hadvances, hheight, -⟩ := Windows.count?_eq_some.mp hheight
      obtain ⟨-, hwidth, -⟩ := Windows.count?_eq_some.mp hwidth
      refine ⟨hadvances, by simpa using hchannels, ?_, hheight, hwidth, (pad_eq_ok.mp hpad).1⟩
      rintro b rfl
      simpa using hbias
  · cases h

/-! ## Convolutions -/

/-- A convolution succeeds exactly if it is suited to the array, and gives the table of all
convolved samples. The windows lie within the padded rows and columns, what stands for these
positions lies within those of the array, and the sweeps over flat slices give the same planes. -/
theorem convolve_tabulates (t weight : Tensor α) (bias : Option (Array α)) (w : Windows) :
    ((∃ r, t.convolve weight bias w = .ok r) ↔ w.Suits t.shape weight.shape bias) ∧
    ∀ r, t.convolve weight bias w = .ok r →
      r.Tabulates (w.extents t.shape weight.shape) (t.convolvedSample weight bias w) ∧
      ∃ padded, t.pad (Padding.uniform w.padding) w.border = .ok padded ∧
        (∀ y < r.shape.height, ∀ ky < weight.shape.height,
          y * w.stride + ky < padded.shape.height ∧
          ∀ k, w.border.resolve? t.shape.height ((y * w.stride + ky : Nat) - w.padding) = some k →
            k < t.shape.height) ∧
        (∀ x < r.shape.width, ∀ kx < weight.shape.width,
          x * w.stride + kx < padded.shape.width ∧
          ∀ k, w.border.resolve? t.shape.width ((x * w.stride + kx : Nat) - w.padding) = some k →
            k < t.shape.width) ∧
        ∀ n < r.shape.batch, ∀ o < r.shape.channels,
          sweepPlane padded weight (biasOf bias o) w r.shape.height r.shape.width n o
            = some (r.plane n o) := by
  refine ⟨⟨fun ⟨r, hr⟩ => suits_of_convolve hr, fun h => ?_⟩, fun r hr => ?_⟩
  · obtain ⟨padded, -, hr⟩ := convolve_of_suits h
    exact ⟨_, hr⟩
  · have h := suits_of_convolve hr
    obtain ⟨padded, hpad, hok⟩ := convolve_of_suits h
    have hgathered : r.Tabulates (w.extents t.shape weight.shape) fun n o y x =>
        gather padded weight (biasOf bias o) n o (y * w.stride) (x * w.stride) :=
      Except.ok.inj (hok.symm.trans hr) ▸ tabulates_ofFn _ _
    have hpadded : padded.shape = t.shape.padded (Padding.uniform w.padding) :=
      (pad_eq_ok.mp hpad).2.shape
    refine ⟨hgathered.congr fun n o y x hn _ hy hx => gather_eq_convolvedSample h hpad hn hy hx,
      padded, hpad, ?_⟩
    rw [hgathered.shape, hpadded]
    refine ⟨fun y hy ky hky => ?_, fun x hx kx hkx => ?_, fun n hn o ho => ?_⟩
    · exact ⟨h.rows hy hky, fun k => Border.resolve?_lt h.border.rows (h.rows hy hky)⟩
    · exact ⟨h.columns hx hkx, fun k => Border.resolve?_lt h.border.columns (h.columns hx hkx)⟩
    · rw [hgathered.plane hn ho]
      exact sweepPlane_eq (biasOf bias o) (hpadded ▸ hn) ho (hpadded ▸ h.channels)
        (fun y hy ky hky => hpadded ▸ h.rows hy hky) fun x hx kx hkx => hpadded ▸ h.columns hx hkx

/-- A kernel of two rows and columns over mirrored edges, every second row and column. -/
theorem convolve_tabulates_mirror : ∃ r padded,
    (ofFn ⟨1, 1, 2, 2⟩ fun _ _ y x => ((2 * y + x : Nat) : ℚ)).convolve
      (ofFn ⟨1, 1, 2, 2⟩ fun _ _ y x => ((y + x : Nat) : ℚ)) (some #[10]) ⟨2, 1, .reflect⟩ = .ok r ∧
    r.shape = ⟨1, 1, 2, 2⟩ ∧ r.get 0 0 0 0 = 13 ∧
    (ofFn ⟨1, 1, 2, 2⟩ fun _ _ y x => ((2 * y + x : Nat) : ℚ)).pad (Padding.uniform 1) .reflect
      = .ok padded ∧
    sweepPlane padded (ofFn ⟨1, 1, 2, 2⟩ fun _ _ y x => ((y + x : Nat) : ℚ)) (10 : ℚ)
      ⟨2, 1, .reflect⟩ 2 2 0 0 = some (r.plane 0 0) := by
  obtain ⟨hok, htable⟩ := convolve_tabulates
    (ofFn ⟨1, 1, 2, 2⟩ fun _ _ y x => ((2 * y + x : Nat) : ℚ))
    (ofFn ⟨1, 1, 2, 2⟩ fun _ _ y x => ((y + x : Nat) : ℚ)) (some #[10]) ⟨2, 1, .reflect⟩
  obtain ⟨r, hr⟩ := hok.mpr ⟨by decide, rfl, by simp, by decide, by decide,
    .inr ⟨by decide, by decide⟩⟩
  obtain ⟨⟨hshape, hget⟩, padded, hpad, -, -, hsweep⟩ := htable r hr
  rw [hshape] at hsweep
  refine ⟨r, padded, hr, hshape, ?_, hpad, hsweep 0 (by decide) 0 (by decide)⟩
  rw [hget (by decide) (by decide) (by decide) (by decide)]
  decide +kernel

end Tensor

end Midframe
