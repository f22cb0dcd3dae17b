import Mathlib.Tactic.Ring
import Midframe.Proofs.Network.Plan
import Midframe.Proofs.Pyramid.Entries

/-!
# Passes entry by entry

A network treats the entries of its batches one by one: the statistics that frames are normalized
by, the features, all values of the pyramid, the kernels and the result of an entry are those of the
pass over this entry alone, computed by the same operations in the same order. So a pass over
batches succeeds exactly if the passes over all their entries do.
-/

namespace Midframe

variable {n b : Nat}

namespace Tensor

/-! ## Statistics -/

theorem getD_ofFn {β : Type} {N i : Nat} (f : Nat → β) (h : i < N) (d : β) :
    (Array.ofFn fun k : Fin N => f k).getD i d = f i := by
  rw [Array.getD_eq_getD_getElem?, Array.getElem?_ofFn, dif_pos h]
  rfl

section Samples

variable {α : Type} {t : Tensor α}

theorem length_entrySamples (hb : b < t.shape.batch) :
    (t.entrySamples b).length = t.shape.channels * t.shape.height * t.shape.width := by
  have hend : (b + 1) * (t.shape.channels * t.shape.height * t.shape.width) ≤ t.shape.size := by
    unfold Shape.size
    rw [Nat.mul_assoc, Nat.mul_assoc, Nat.mul_assoc]
    exact Nat.mul_le_mul_right _ hb
  simp only [entrySamples, Array.length_toList, Array.size_extract, Vector.size_toArray,
    Nat.min_eq_left hend]
  rw [Nat.add_mul, Nat.one_mul, Nat.add_sub_cancel_left]

/-- The samples of an entry lie together, in the order of their positions. -/
theorem getElem_entrySamples [Scalar α] (hb : b < t.shape.batch) {c y x : Nat}
    (hc : c < t.shape.channels) (hy : y < t.shape.height) (hx : x < t.shape.width)
    (h : t.shape.offset 0 c y x < (t.entrySamples b).length) :
    (t.entrySamples b)[t.shape.offset 0 c y x] = t.get b c y x := by
  have hposition : t.shape.offset b c y x =
      b * (t.shape.channels * t.shape.height * t.shape.width) + t.shape.offset 0 c y x := by
    simp only [Shape.offset]
    ring
  simp only [entrySamples, Array.getElem_toList, Array.getElem_extract, ← hposition]
  exact (get_of_lt (Shape.offset_lt hb hc hy hx)).symm

end Samples

section Statistics

variable {α ω : Type} [Scalar α] [Scalar ω] [Widening α ω]

/-- What the frames of entry `k` are shifted by and divided by. -/
def statistics (divisor : ω → α) (one two : Tensor α) (k : Nat) : α × α :=
  let m : ω × ω := Tensor.jointMoments one two k
  (Widening.narrow m.1, divisor m.2)

theorem normalizePairBy_eq (divisor : ω → α) (one two : Tensor α) :
    Tensor.normalizePairBy divisor one two =
      if one.shape != two.shape then .error (.shapeMismatch (.frames one.shape two.shape))
      else
        let entries := Array.ofFn fun k : Fin one.shape.batch => statistics divisor one two k
        let mean (k : Nat) : α := (entries.getD k (Scalar.zero, Scalar.zero)).1
        let scale (k : Nat) : α := (entries.getD k (Scalar.zero, Scalar.zero)).2
        .ok (one.standardize mean scale, two.standardize mean scale) := rfl

end Statistics

namespace IsEntry

theorem entrySamples {α : Type} [Scalar α] {t u : Tensor α} (h : IsEntry n b t u) (hb : b < n) :
    u.entrySamples 0 = t.entrySamples b := by
  have hbatch : b < t.shape.batch := h.batch ▸ hb
  have hone : 0 < u.shape.batch := by rw [h.shape]; exact Nat.zero_lt_one
  refine List.ext_getElem ?_ fun i hi hi' => ?_
  · rw [length_entrySamples hbatch, length_entrySamples hone, h.channels, h.height, h.width]
  · have hsize : i < u.shape.size := by
      rw [length_entrySamples hone] at hi
      simpa only [Shape.size, h.shape, Nat.one_mul] using hi
    obtain ⟨k, c, y, x, hk, hc, hy, hx, rfl⟩ := Shape.exists_offset hsize
    obtain rfl : k = 0 := by
      rw [h.shape] at hk
      exact Nat.lt_one_iff.mp hk
    have hoffset : u.shape.offset 0 c y x = t.shape.offset 0 c y x := by rw [h.shape]; rfl
    rw [h.channels] at hc
    rw [h.height] at hy
    rw [h.width] at hx
    rw [getElem_entrySamples hone (h.channels ▸ hc) (h.height ▸ hy) (h.width ▸ hx)]
    simp only [hoffset]
    rw [getElem_entrySamples hbatch hc hy hx, h.samples c y x hc hy hx]

section Pair

variable {α ω : Type} [Scalar α] [Scalar ω] [Widening α ω] {one two one' two' : Tensor α}
  (hone : IsEntry n b one one') (htwo : IsEntry n b two two') (hb : b < n)
include hone htwo hb

theorem jointMoments :
    (Tensor.jointMoments one' two' 0 : ω × ω) = Tensor.jointMoments one two b := by
  rw [Tensor.jointMoments, Tensor.jointMoments, hone.entrySamples hb, htwo.entrySamples hb]

theorem normalizePairBy (divisor : ω → α) :
    Corresponds (fun p q => IsEntry n b p.1 q.1 ∧ IsEntry n b p.2 q.2)
      (Tensor.normalizePairBy divisor one two) (Tensor.normalizePairBy divisor one' two') := by
  rw [normalizePairBy_eq, normalizePairBy_eq]
  simp only [bne_iff_ne, ne_eq, hone.shape_eq_iff htwo]
  split
  · exact .error _ _
  · have hmoments := jointMoments (ω := ω) hone htwo hb
    have hstandardize {t u : Tensor α} (h : IsEntry n b t u) {mean mean' scale scale'}
        (hmean : mean' 0 = mean b) (hscale : scale' 0 = scale b) :
        IsEntry n b (t.standardize mean scale) (u.standardize mean' scale') := by
      refine .of_ofFn hb h.batch h.shape fun c y x hc hy hx => ?_
      rw [h.samples c y x hc hy hx, hmean, hscale]
    -- The statistics of all entries are tabulated, the batch has theirs at position `b`.
    have hentries : (Array.ofFn fun k : Fin one'.shape.batch =>
          statistics divisor one' two' k).getD 0 (Scalar.zero, Scalar.zero)
        = (Array.ofFn fun k : Fin one.shape.batch =>
          statistics divisor one two k).getD b (Scalar.zero, Scalar.zero) := by
      rw [getD_ofFn (statistics divisor one' two') (by rw [hone.shape]; exact Nat.zero_lt_one),
        getD_ofFn (statistics divisor one two) (hone.batch ▸ hb), statistics, statistics, hmoments]
    have hmean := congrArg Prod.fst hentries
    have hscale := congrArg Prod.snd hentries
    refine .ok ?_
    dsimp only
    constructor
    · apply hstandardize hone hmean hscale
    · apply hstandardize htwo hmean hscale

end Pair

theorem normalizePair {one two one' two' : Tensor Float32} (hone : IsEntry n b one one')
    (htwo : IsEntry n b two two') (hb : b < n) :
    Corresponds (fun p q => IsEntry n b p.1 q.1 ∧ IsEntry n b p.2 q.2)
      (Tensor.normalizePair one two) (Tensor.normalizePair one' two') :=
  hone.normalizePairBy htwo hb raisedDeviation

end IsEntry

/-! ## Synthesis -/

namespace IsEntry

variable {α : Type} [Scalar α] {t u : Tensor α} (h : IsEntry n b t u) (hb : b < n)
include h hb

theorem synthesisFrame (kernelSize : Nat) :
    Corresponds (IsEntry n b) (t.synthesisFrame kernelSize) (u.synthesisFrame kernelSize) := by
  have hones : IsEntry n b (replicate { t.shape with channels := 1 } Scalar.one)
      (replicate { u.shape with channels := 1 } (Scalar.one : α)) := by
    rw [h.shape]
    exact of_replicate hb (s := { t.shape with channels := 1 }) h.batch rfl Scalar.one
  exact (concatChannels hb (.cons h (.cons hones .nil))).bind fun _ _ h => h.pad hb _ _

omit hb in
/-- What is filtered under a window within the frame is filtered within its entry. -/
theorem filteredSample {vertical vertical' horizontal horizontal' : Tensor α}
    (hvertical : IsEntry n b vertical vertical') (hhorizontal : IsEntry n b horizontal horizontal')
    (hpair : vertical.shape = horizontal.shape)
    (hheight : t.shape.height = vertical.shape.height + (vertical.shape.channels - 1))
    (hwidth : t.shape.width = vertical.shape.width + (vertical.shape.channels - 1)) {c y x : Nat}
    (hc : c < t.shape.channels) (hy : y < vertical.shape.height) (hx : x < vertical.shape.width) :
    u.filteredSample vertical' horizontal' 0 c y x
      = t.filteredSample vertical horizontal b c y x := by
  simp only [Tensor.filteredSample]
  rw [hvertical.channels]
  congr 1
  funext i hi acc
  rw [hvertical.samples i y x hi hy hx]
  congr 3
  funext j hj acc
  rw [h.samples c (y + i) (x + j) hc (by omega) (by omega),
    hhorizontal.samples j y x (hpair ▸ hj) (hpair ▸ hy) (hpair ▸ hx)]

theorem separableFilter {vertical vertical' horizontal horizontal' : Tensor α}
    (hvertical : IsEntry n b vertical vertical')
    (hhorizontal : IsEntry n b horizontal horizontal') :
    Corresponds (IsEntry n b) (t.separableFilter vertical horizontal)
      (u.separableFilter vertical' horizontal') := by
  unfold Tensor.separableFilter
  have hbatch : t.shape.batch = vertical.shape.batch := h.batch.trans hvertical.batch.symm
  have hbatch' : u.shape.batch = vertical'.shape.batch := by rw [h.shape, hvertical.shape]
  simp only [bne_iff_ne, ne_eq, hvertical.shape_eq_iff hhorizontal, hbatch, hbatch',
    bne_self_eq_false, Bool.or_false, h.height, h.width, hvertical.channels, hvertical.height,
    hvertical.width]
  split
  · exact .error _ _
  · next hpair =>
    split
    · exact .error _ _
    · next hwindow =>
      simp only [Bool.or_eq_true, beq_iff_eq, bne_iff_ne, ne_eq, not_or,
        Decidable.not_not] at hpair hwindow
      refine .ok (of_ofFn hb hvertical.batch (by rw [hvertical.shape, h.channels]) ?_)
      intro c y x (hc : c < t.shape.channels) (hy : y < vertical.shape.height)
        (hx : x < vertical.shape.width)
      exact h.filteredSample hvertical hhorizontal hpair hwindow.1.2 hwindow.2 hc hy hx

theorem divideByNormalizer :
    Corresponds (IsEntry n b) t.divideByNormalizer u.divideByNormalizer := by
  unfold Tensor.divideByNormalizer
  rw [h.channels]
  split
  · exact .error _ _
  · next hlarge =>
    refine .ok (.of_ofFn hb h.batch (by rw [h.shape]) ?_)
    intro c y x (hc : c < t.shape.channels - 1) (hy : y < t.shape.height) (hx : x < t.shape.width)
    rw [h.samples c y x (by omega) hy hx, h.samples _ y x (by omega) hy hx]

end IsEntry

end Tensor

/-- What one of two sets of heads holds is related to what the other one holds, head by head. -/
structure Heads.Alike {α β : Type} (R : α → β → Prop) (h : Heads α) (h' : Heads β) : Prop where
  /-- The vertical kernels for the first frame are. -/
  verticalOne : R h.verticalOne h'.verticalOne
  /-- The horizontal kernels for the first frame are. -/
  horizontalOne : R h.horizontalOne h'.horizontalOne
  /-- The vertical kernels for the second frame are. -/
  verticalTwo : R h.verticalTwo h'.verticalTwo
  /-- The horizontal kernels for the second frame are. -/
  horizontalTwo : R h.horizontalTwo h'.horizontalTwo

namespace Network

theorem synthesize_entry {α : Type} [Scalar α] {one two one' two' : Tensor α} (hb : b < n)
    (hone : one.IsEntry n b one') (htwo : two.IsEntry n b two')
    {kernels kernels' : Heads (Tensor α)} (hkernels : kernels.Alike (Tensor.IsEntry n b) kernels') :
    Corresponds (Tensor.IsEntry n b) (synthesize one two kernels)
      (synthesize one' two' kernels') := by
  refine (hone.separableFilter hb hkernels.verticalOne hkernels.horizontalOne).bind
    fun one one' hone => ?_
  refine (htwo.separableFilter hb hkernels.verticalTwo hkernels.horizontalTwo).bind
    fun two two' htwo => ?_
  exact (hone.add hb htwo).bind fun _ _ h => h.divideByNormalizer hb

theorem checkFrames_entry {one two one' two' : Tensor Float32} (hb : b < n)
    (hone : one.IsEntry n b one') (htwo : two.IsEntry n b two') :
    Corresponds (fun _ _ => True) (checkFrames one.shape two.shape)
      (checkFrames one'.shape two'.shape) := by
  have hempty : one'.shape.isEmpty = one.shape.isEmpty := by
    have hpos : 0 < one.shape.batch := by rw [hone.batch]; omega
    rw [hone.shape, Bool.eq_iff_iff]
    simp [Shape.isEmpty, Shape.size, Nat.ne_of_gt hpos]
  unfold checkFrames
  simp only [bne_iff_ne, ne_eq, hone.shape_eq_iff htwo, hone.channels, hone.height, hone.width,
    hempty]
  split
  · exact .error _ _
  · split
    · exact .error _ _
    · split
      · exact .error _ _
      · exact .ok trivial

variable (net : Network) {one two one' two' : Tensor Float32} (hb : b < n)

include hb in
theorem features_entry (hone : one.IsEntry n b one') (htwo : two.IsEntry n b two') :
    Corresponds (Tensor.IsEntry n b) (net.features one two) (net.features one' two') := by
  refine (hone.normalizePair htwo hb).bind fun _ _ h => ?_
  refine (net.input.forward_entry hb h.1).bind fun one one' hone => ?_
  refine (net.input.forward_entry hb h.2).bind fun two two' htwo => ?_
  exact Tensor.IsEntry.concatChannels hb (.cons hone (.cons htwo .nil))

theorem encoderInputs_entry {x y : Tensor Float32} (h : x.IsEntry n b y) :
    List.Forall₂ (EntryOf n b) (net.encoderInputs x) (net.encoderInputs y) := by
  refine .cons (.some h) ?_
  induction net.config.channels.length - 1 with
  | zero => exact .nil
  | succ k ih => exact .cons .none ih

theorem coarseValue_entry {values values' : List (Option (Tensor Float32))}
    (h : List.Forall₂ (EntryOf n b) values values') :
    Corresponds (Tensor.IsEntry n b) (coarseValue values) (coarseValue values') := by
  unfold coarseValue
  rcases h with _ | ⟨-, _ | ⟨hv, -⟩⟩
  · exact .error _ _
  · exact .error _ _
  · cases hv with
    | none => exact .error _ _
    | some h => exact .ok h

include hb in
theorem heads_entry (heads : Heads Block) {x y : Tensor Float32} (h : x.IsEntry n b y) :
    Corresponds (Heads.Alike (Tensor.IsEntry n b)) (heads.traverse fun _ block => block.forward x)
      (heads.traverse fun _ block => block.forward y) := by
  refine (heads.verticalOne.forward_entry hb h).bind fun _ _ hverticalOne => ?_
  refine (heads.horizontalOne.forward_entry hb h).bind fun _ _ hhorizontalOne => ?_
  refine (heads.verticalTwo.forward_entry hb h).bind fun _ _ hverticalTwo => ?_
  refine (heads.horizontalTwo.forward_entry hb h).bind fun _ _ hhorizontalTwo => ?_
  exact .ok ⟨hverticalOne, hhorizontalOne, hverticalTwo, hhorizontalTwo⟩

include hb in
/-- A pass over batches and over one entry of both. -/
theorem forward_entry (hone : one.IsEntry n b one') (htwo : two.IsEntry n b two') :
    Corresponds (Tensor.IsEntry n b) (net.forward one two) (net.forward one' two') := by
  refine (checkFrames_entry hb hone htwo).bind fun _ _ _ => ?_
  refine (hone.synthesisFrame hb _).bind fun framedOne framedOne' hframedOne => ?_
  refine (htwo.synthesisFrame hb _).bind fun framedTwo framedTwo' hframedTwo => ?_
  refine (net.features_entry hb hone htwo).bind fun features features' hfeatures => ?_
  have hempty : ShapeTable.IsEntry Keyed.empty Keyed.empty := fun _ => rfl
  obtain ⟨hencoded, htable⟩ :=
    Pyramid.encode_entry hb net.encoder hempty (net.encoderInputs_entry hfeatures)
  refine hencoded.bind fun encoded encoded' hencoded => ?_
  refine (Pyramid.decode_entry hb net.decoder htable hencoded).bind fun decoded decoded' h => ?_
  refine (coarseValue_entry h).bind fun coarse coarse' hcoarse => ?_
  refine (heads_entry hb net.heads hcoarse).bind fun kernels kernels' hkernels => ?_
  exact synthesize_entry hb hframedOne hframedTwo hkernels

/-- A pass over batches of `n` frames succeeds exactly if the passes over all pairs of their entries
do, and entry `b` of its result is then the result of the pass over the entries `b`. -/
theorem forward_by_entry {height width : Nat} (hone : one.shape = ⟨n, 3, height, width⟩)
    (htwo : two.shape = ⟨n, 3, height, width⟩) (pos : 0 < n) :
    ((∃ y, net.forward one two = .ok y) ↔
      ∀ b < n, ∃ z, net.forward (one.entry b) (two.entry b) = .ok z) ∧
    ∀ y, net.forward one two = .ok y → y.shape.batch = n ∧
      ∀ b < n, net.forward (one.entry b) (two.entry b) = .ok (y.entry b) := by
  have hentry (b : Nat) (hb : b < n) : Corresponds (Tensor.IsEntry n b) (net.forward one two)
      (net.forward (one.entry b) (two.entry b)) := by
    have hone' := Tensor.isEntry_entry one b
    have htwo' := Tensor.isEntry_entry two b
    rw [hone] at hone'
    rw [htwo] at htwo'
    exact net.forward_entry hb hone' htwo'
  refine ⟨⟨?_, fun h => ?_⟩, fun y hy => ⟨?_, fun b hb => ?_⟩⟩
  · rintro ⟨y, hy⟩ b hb
    obtain ⟨z, hz, -⟩ := (hy ▸ hentry b hb).exists_of_ok
    exact ⟨z, hz⟩
  · obtain ⟨z, hz⟩ := h 0 pos
    obtain ⟨y, hy, -⟩ := (hz ▸ hentry 0 pos).exists_of_ok_right
    exact ⟨y, hy⟩
  · obtain ⟨z, -, hz⟩ := (hy ▸ hentry 0 pos).exists_of_ok
    exact hz.batch
  · obtain ⟨z, hz, hyz⟩ := (hy ▸ hentry b hb).exists_of_ok
    rw [hz, hyz.eq_entry]

/-- A pass over two frames of ascending samples. -/
theorem forward_by_entry_pointwise : ∃ (net : Network) (y : Tensor Float32),
    build pointwise = .ok net ∧
    net.forward (.ofFn ⟨2, 3, 2, 2⟩ fun n c y x => Scalar.ofNat (n + c + y + x))
      (.ofFn ⟨2, 3, 2, 2⟩ fun n _ y x => Scalar.ofNat (n * y * x)) = .ok y ∧
    ∀ b < 2, net.forward
      (Tensor.entry (.ofFn ⟨2, 3, 2, 2⟩ fun n c y x => Scalar.ofNat (n + c + y + x)) b)
      (Tensor.entry (.ofFn ⟨2, 3, 2, 2⟩ fun n _ y x => Scalar.ofNat (n * y * x)) b)
      = .ok (y.entry b) := by
  obtain ⟨net, hbuild, hrun⟩ := exists_eq_ok_of_map (show (build pointwise).toOption.map
      (fun net => (net.forward (.ofFn ⟨2, 3, 2, 2⟩ fun n c y x => Scalar.ofNat (n + c + y + x))
        (.ofFn ⟨2, 3, 2, 2⟩ fun n _ y x => Scalar.ofNat (n * y * x))).isOk)
      = some true by decide +kernel)
  obtain ⟨y, hy⟩ := exists_eq_ok_of_isOk hrun
  exact ⟨net, y, hbuild, hy, ((net.forward_by_entry rfl rfl Nat.two_pos).2 y hy).2⟩

end Network

end Midframe
