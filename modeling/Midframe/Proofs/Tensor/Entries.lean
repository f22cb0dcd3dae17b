import Mathlib.Data.List.Forall2
import Midframe.Network.Synthesis
import Midframe.Proofs.Tensor.Samples
import Midframe.Tensor.Convolution
import Midframe.Tensor.Resampling

/-!
# Entries of batches

Array operations treat the entries of a batch one by one. `IsEntry n b t u` says that `u` holds
entry `b` of the batch `t` of `n` entries. Every operation either fails on both or gives a batch and
its entry again: whether it succeeds does not depend on the number of entries, and the samples of an
entry are computed from samples of that entry, by the same steps in the same order. What makes this
hold is that no operation that succeeds reads outside of the rows, columns and channels of an entry.
-/

namespace Midframe

namespace Shape

variable {s : Shape} {i : Nat}

/-- Every position is that of the sample at some indices. -/
theorem exists_offset (h : i < s.size) : ∃ n c y x, n < s.batch ∧ c < s.channels ∧ y < s.height ∧
    x < s.width ∧ s.offset n c y x = i := by
  unfold size at h
  have hwidth : 0 < s.width := Nat.pos_of_ne_zero fun h0 => by simp [h0] at h
  have hheight : 0 < s.height := Nat.pos_of_ne_zero fun h0 => by simp [h0] at h
  have hchannels : 0 < s.channels := Nat.pos_of_ne_zero fun h0 => by simp [h0] at h
  refine ⟨i / s.width / s.height / s.channels, i / s.width / s.height % s.channels,
    i / s.width % s.height, i % s.width, ?_, Nat.mod_lt _ hchannels, Nat.mod_lt _ hheight,
    Nat.mod_lt _ hwidth, ?_⟩
  · rw [Nat.div_lt_iff_lt_mul hchannels, Nat.div_lt_iff_lt_mul hheight,
      Nat.div_lt_iff_lt_mul hwidth]
    exact h
  · simp only [offset, Nat.div_add_mod']

theorem size_eq_zero_of_spatial (h : s.height = 0 ∨ s.width = 0) : s.size = 0 := by
  unfold size
  rcases h with h | h <;> simp [h]

end Shape

namespace Tensor

variable {α : Type} [Scalar α]

theorem get_of_lt {t : Tensor α} {n c y x : Nat} (h : t.shape.offset n c y x < t.shape.size) :
    t.get n c y x = t.data[t.shape.offset n c y x] := dif_pos h

theorem get_of_size_eq_zero {t : Tensor α} (h : t.shape.size = 0) (n c y x : Nat) :
    t.get n c y x = Scalar.zero := dif_neg (by rw [h]; exact Nat.not_lt_zero _)

/-- Arrays of one shape are equal if all their samples are. -/
theorem ext_get {t u : Tensor α} (hshape : t.shape = u.shape)
    (h : ∀ n c y x, n < t.shape.batch → c < t.shape.channels → y < t.shape.height →
      x < t.shape.width → t.get n c y x = u.get n c y x) : t = u := by
  obtain ⟨s, data⟩ := t
  obtain ⟨s', data'⟩ := u
  obtain rfl : s = s' := hshape
  congr 1
  refine Vector.ext fun i hi => ?_
  obtain ⟨n, c, y, x, hn, hc, hy, hx, rfl⟩ := Shape.exists_offset hi
  have hget := h n c y x hn hc hy hx
  rwa [get_of_lt hi, get_of_lt hi] at hget

theorem get_map {β : Type} [Scalar β] {t : Tensor α} (f : α → β) {n c y x : Nat}
    (hn : n < t.shape.batch) (hc : c < t.shape.channels) (hy : y < t.shape.height)
    (hx : x < t.shape.width) : (t.map f).get n c y x = f (t.get n c y x) := by
  have hlt := Shape.offset_lt hn hc hy hx
  rw [get_of_lt hlt]
  exact (dif_pos hlt).trans (Vector.getElem_map f hlt)

theorem get_replicate {s : Shape} (value : α) {n c y x : Nat} (hn : n < s.batch)
    (hc : c < s.channels) (hy : y < s.height) (hx : x < s.width) :
    (replicate s value).get n c y x = value := by
  have hlt := Shape.offset_lt hn hc hy hx
  exact (dif_pos hlt).trans (Vector.getElem_replicate hlt)

theorem add_eq_ok {a b r : Tensor α} : a.add b = .ok r ↔ b.shape = a.shape ∧ r.shape = a.shape ∧
    ∀ n c y x, n < a.shape.batch → c < a.shape.channels → y < a.shape.height →
      x < a.shape.width → r.get n c y x = a.get n c y x + b.get n c y x := by
  have hsum (h : a.shape = b.shape) : ∃ s : Tensor α, a.add b = .ok s ∧ s.shape = a.shape ∧
      ∀ n c y x, n < a.shape.batch → c < a.shape.channels → y < a.shape.height →
        x < a.shape.width → s.get n c y x = a.get n c y x + b.get n c y x := by
    refine ⟨_, dif_pos h, rfl, fun n c y x hn hc hy hx => ?_⟩
    have hlt := Shape.offset_lt hn hc hy hx
    have hlt' : b.shape.offset n c y x < b.shape.size := h ▸ hlt
    have hoffset : a.shape.offset n c y x = b.shape.offset n c y x := by rw [h]
    rw [get_of_lt hlt, get_of_lt hlt']
    refine (dif_pos hlt).trans ((Vector.getElem_zipWith hlt).trans ?_)
    simp only [Vector.getElem_cast, hoffset]
  constructor
  · intro hadd
    by_cases h : a.shape = b.shape
    · obtain ⟨s, hs, hshape, hget⟩ := hsum h
      obtain rfl := Except.ok.inj (hs.symm.trans hadd)
      exact ⟨h.symm, hshape, hget⟩
    · rw [add, dif_neg h] at hadd
      cases hadd
  · rintro ⟨h, hshape, hget⟩
    obtain ⟨s, hs, hshape', hget'⟩ := hsum h.symm
    rw [hs]
    refine congrArg Except.ok (ext_get (hshape'.trans hshape.symm) ?_)
    rw [hshape']
    intro n c y x hn hc hy hx
    rw [hget' n c y x hn hc hy hx, hget n c y x hn hc hy hx]

/-! ## The relation -/

/-- The second array holds entry `b` of the first one, a batch of `n` entries. -/
structure IsEntry (n b : Nat) (t u : Tensor α) : Prop where
  /-- The batch has so many entries. -/
  batch : t.shape.batch = n
  /-- The entry has the other extents of the batch. -/
  shape : u.shape = { t.shape with batch := 1 }
  /-- It holds the samples of the entry. -/
  samples : ∀ c y x, c < t.shape.channels → y < t.shape.height → x < t.shape.width →
    u.get 0 c y x = t.get b c y x

variable {n b : Nat} {t u : Tensor α}

theorem isEntry_entry (t : Tensor α) (b : Nat) : IsEntry t.shape.batch b t (t.entry b) where
  batch := rfl
  shape := rfl
  samples := fun _ _ _ hc hy hx => get_ofFn (fun _ c y x => t.get b c y x) Nat.zero_lt_one hc hy hx

namespace IsEntry

theorem eq_entry (h : IsEntry n b t u) : u = t.entry b := by
  refine ext_get h.shape fun k c y x hk hc hy hx => ?_
  rw [h.shape] at hk hc hy hx
  obtain rfl : k = 0 := Nat.lt_one_iff.mp hk
  rw [h.samples c y x hc hy hx]
  exact ((isEntry_entry t b).samples c y x hc hy hx).symm

theorem channels (h : IsEntry n b t u) : u.shape.channels = t.shape.channels := by rw [h.shape]

theorem height (h : IsEntry n b t u) : u.shape.height = t.shape.height := by rw [h.shape]

theorem width (h : IsEntry n b t u) : u.shape.width = t.shape.width := by rw [h.shape]

/-- Batches of as many entries have the same shape exactly if their entries have. -/
theorem shape_eq_iff {t' u' : Tensor α} (h : IsEntry n b t u) (h' : IsEntry n b t' u') :
    u.shape = u'.shape ↔ t.shape = t'.shape := by
  have hbatch := h.batch.trans h'.batch.symm
  rw [h.shape, h'.shape]
  cases hs : t.shape
  cases hs' : t'.shape
  simp_all

/-- Rows and columns that are held below the extents are those of the entry, also where there are
none. -/
theorem get_of_le (h : IsEntry n b t u) {c y x : Nat} (hc : c < t.shape.channels)
    (hy : y ≤ t.shape.height - 1) (hx : x ≤ t.shape.width - 1) :
    u.get 0 c y x = t.get b c y x := by
  by_cases hempty : t.shape.height = 0 ∨ t.shape.width = 0
  · have hempty' : u.shape.height = 0 ∨ u.shape.width = 0 := by rwa [h.height, h.width]
    rw [get_of_size_eq_zero (Shape.size_eq_zero_of_spatial hempty),
      get_of_size_eq_zero (Shape.size_eq_zero_of_spatial hempty')]
  · exact h.samples c y x hc (by omega) (by omega)

variable (hb : b < n)
include hb

/-- Arrays that are made index by index. -/
theorem of_ofFn {s s' : Shape} {f f' : Nat → Nat → Nat → Nat → α} (batch : s.batch = n)
    (shape : s' = { s with batch := 1 })
    (h : ∀ c y x, c < s.channels → y < s.height → x < s.width → f' 0 c y x = f b c y x) :
    IsEntry n b (ofFn s f) (ofFn s' f') := by
  subst shape
  refine ⟨batch, rfl, ?_⟩
  intro c y x (hc : c < s.channels) (hy : y < s.height) (hx : x < s.width)
  rw [get_ofFn f (batch ▸ hb) hc hy hx, ← h c y x hc hy hx]
  exact get_ofFn f' Nat.zero_lt_one hc hy hx

theorem of_replicate {s s' : Shape} (batch : s.batch = n) (shape : s' = { s with batch := 1 })
    (value : α) : IsEntry n b (replicate s value) (replicate s' value) := by
  subst shape
  refine ⟨batch, rfl, ?_⟩
  intro c y x (hc : c < s.channels) (hy : y < s.height) (hx : x < s.width)
  rw [get_replicate value (batch ▸ hb) hc hy hx]
  exact get_replicate value Nat.zero_lt_one hc hy hx

theorem map (h : IsEntry n b t u) (f : α → α) : IsEntry n b (t.map f) (u.map f) := by
  refine ⟨h.batch, h.shape, ?_⟩
  intro c y x (hc : c < t.shape.channels) (hy : y < t.shape.height) (hx : x < t.shape.width)
  have hone : 0 < u.shape.batch := by rw [h.shape]; exact Nat.zero_lt_one
  rw [get_map f (h.batch ▸ hb) hc hy hx, get_map f hone (h.channels ▸ hc) (h.height ▸ hy)
    (h.width ▸ hx), h.samples c y x hc hy hx]

end IsEntry

end Tensor

/-! ## Padding and convolution -/

/-- Whether padding is possible depends on the rows and columns only. -/
theorem Border.check_corresponds (border : Border) (p : Padding) {s s' : Shape}
    (height : s'.height = s.height) (width : s'.width = s.width) :
    Corresponds (fun _ _ => True) (border.check p s) (border.check p s') := by
  cases border with
  | zeros => exact .ok trivial
  | replicate =>
    simp only [check, height, width]
    split
    · exact .error _ _
    · exact .ok trivial
  | reflect =>
    simp only [check, height, width]
    split
    · exact .error _ _
    · exact .ok trivial

/-- No position of a padded axis reads behind the last sample. -/
theorem Border.source?_le {border : Border} {n before i k : Nat}
    (h : border.source? n before i = some k) : k ≤ n - 1 := by
  simp only [source?] at h
  split at h
  · have := Option.some.inj h
    omega
  · cases border with
    | zeros => cases h
    | replicate =>
      have := Option.some.inj h
      omega
    | reflect =>
      have := Option.some.inj h
      omega

/-- The windows of a convolution lie within the padded axis. -/
theorem Windows.count?_covers {w : Windows} {n kernel count i k : Nat}
    (h : w.count? n kernel = some count) (hi : i < count) (hk : k < kernel) :
    i * w.stride + k < n + 2 * w.padding := by
  simp only [count?] at h
  split at h
  · cases h
  · next hfits =>
    simp only [Bool.or_eq_true, decide_eq_true_eq, beq_iff_eq, not_or, Nat.not_lt] at hfits
    have hcount := Option.some.inj h
    have hle : i * w.stride ≤ n + 2 * w.padding - kernel :=
      (Nat.le_div_iff_mul_le (Nat.pos_of_ne_zero hfits.2)).mp (by omega)
    omega

namespace Tensor

variable {α : Type} [Scalar α] {n b : Nat} {t u : Tensor α}

/-- What is gathered under a window within the array is gathered within its entry. -/
theorem IsEntry.gather (h : IsEntry n b t u) {weight : Tensor α} (start : α) (o : Nat)
    {top left : Nat} (hchannels : weight.shape.channels = t.shape.channels)
    (htop : ∀ k < weight.shape.height, top + k < t.shape.height)
    (hleft : ∀ k < weight.shape.width, left + k < t.shape.width) :
    gather u weight start 0 o top left = gather t weight start b o top left := by
  unfold Tensor.gather
  congr 1
  funext i hi acc
  congr 1
  funext ky hky acc
  congr 1
  funext kx hkx acc
  simp only [h.samples i (top + ky) (left + kx) (hchannels ▸ hi) (htop ky hky) (hleft kx hkx)]

namespace IsEntry

variable (hb : b < n)
include hb

theorem pad (h : IsEntry n b t u) (p : Padding) (border : Border) :
    Corresponds (IsEntry n b) (t.pad p border) (u.pad p border) := by
  unfold Tensor.pad
  by_cases hzero : p.isZero = true
  · rw [if_pos hzero, if_pos hzero]
    exact .ok h
  · rw [if_neg hzero, if_neg hzero]
    have hcheck := border.check_corresponds p h.height h.width
    generalize border.check p t.shape = x at hcheck
    generalize border.check p u.shape = y at hcheck
    cases hcheck with
    | error e e' => exact .error e e'
    | ok _ =>
      refine .ok (.of_ofFn hb h.batch (by rw [h.shape]; rfl) fun c y x hc _ _ => ?_)
      unfold getPadded
      rw [h.height, h.width]
      cases hrow : border.source? t.shape.height p.top y with
      | none => rfl
      | some row =>
        cases hcolumn : border.source? t.shape.width p.left x with
        | none => rfl
        | some column => exact h.get_of_le hc (Border.source?_le hrow) (Border.source?_le hcolumn)

theorem padToEven (h : IsEntry n b t u) (border : Border) :
    Corresponds (IsEntry n b) (t.padToEven border) (u.padToEven border) := by
  unfold Tensor.padToEven
  rw [h.height, h.width]
  exact h.pad hb _ border

theorem convolve (h : IsEntry n b t u) (weight : Tensor α) (bias : Option (Array α))
    (w : Windows) :
    Corresponds (IsEntry n b) (t.convolve weight bias w) (u.convolve weight bias w) := by
  unfold Tensor.convolve
  rw [h.channels, h.height, h.width]
  by_cases hchannels : weight.shape.channels = t.shape.channels
  · by_cases hbias : ((bias.map (·.size)).any (· != weight.shape.batch)) = true
    · simp only [hchannels, bne_self_eq_false, Bool.false_eq_true, ↓reduceIte, hbias]
      exact .error _ _
    · simp only [hchannels, bne_self_eq_false, Bool.false_eq_true, ↓reduceIte, hbias]
      cases hheight : w.count? t.shape.height weight.shape.height with
      | none => exact .error _ _
      | some height =>
        cases hwidth : w.count? t.shape.width weight.shape.width with
        | none => exact .error _ _
        | some width =>
          have hpad := h.pad hb (Padding.uniform w.padding) w.border
          have hshape := fun r => (t.pad_shape (Padding.uniform w.padding) w.border r).mp
          generalize t.pad (Padding.uniform w.padding) w.border = x at hpad hshape
          generalize u.pad (Padding.uniform w.padding) w.border = y at hpad
          cases hpad with
          | error e e' => exact .error e e'
          | @ok padded padded' hpadded =>
            obtain ⟨hpshape, -⟩ := hshape padded.shape rfl
            refine .ok (.of_ofFn hb h.batch (by rw [h.shape]) fun c y x hc hy hx => ?_)
            refine hpadded.gather _ c (by rw [hchannels, ← hpshape]; rfl) (fun k hk => ?_)
              (fun k hk => ?_)
            · have := Windows.count?_covers hheight hy hk
              rw [← hpshape]
              simp only [Shape.padded, Shape.resized, Padding.uniform]
              omega
            · have := Windows.count?_covers hwidth hx hk
              rw [← hpshape]
              simp only [Shape.padded, Shape.resized, Padding.uniform]
              omega
  · rw [if_pos (by simpa using hchannels), if_pos (by simpa using hchannels)]
    exact .error _ _

end IsEntry

end Tensor

/-! ## Resampling -/

namespace Tap

variable {α ω : Type} [Scalar α] [Scalar ω] [Widening α ω] (filter : Filter) (scale : ω) (n d : Nat)

theorem ofIndex_low_le : (ofIndex filter scale n d : Tap α).low ≤ n - 1 := by
  cases filter <;> exact Nat.min_le_right _ _

theorem ofIndex_high_le : (ofIndex filter scale n d : Tap α).high ≤ n - 1 := by
  cases filter <;> exact Nat.min_le_right _ _

end Tap

namespace Tensor

variable {α ω : Type} [Scalar α] [Scalar ω] [Widening α ω] {n b : Nat} {t u : Tensor α}

/-- A position of an expanded axis looks at samples of the axis only. -/
theorem expandedSample_congr {n i : Nat} (hi : i < n * 2) {f g : Nat → α}
    (h : ∀ k ≤ n - 1, f k = g k) : expandedSample n i f = expandedSample n i g := by
  simp only [expandedSample, h (i / 2 - 1) (by omega), h (i / 2) (by omega),
    h (min (i / 2 + 1) (n - 1)) (Nat.min_le_right _ _)]

namespace IsEntry

/-- A blend of samples within the array is one within its entry. -/
theorem getBlended (h : IsEntry n b t u) {c : Nat} (hc : c < t.shape.channels) {row column : Tap α}
    (hrow : row.low ≤ t.shape.height - 1 ∧ row.high ≤ t.shape.height - 1)
    (hcolumn : column.low ≤ t.shape.width - 1 ∧ column.high ≤ t.shape.width - 1) :
    u.getBlended 0 c row column = t.getBlended b c row column := by
  simp only [Tensor.getBlended, h.get_of_le hc hrow.1 hcolumn.1, h.get_of_le hc hrow.1 hcolumn.2,
    h.get_of_le hc hrow.2 hcolumn.1, h.get_of_le hc hrow.2 hcolumn.2]

variable (hb : b < n)
include hb

theorem resample (h : IsEntry n b t u) (scale : ω) (filter : Filter) :
    IsEntry n b (t.resample scale filter) (u.resample scale filter) := by
  have hshape : u.shape.scaled scale = { t.shape.scaled scale with batch := 1 } := by
    rw [h.shape]
    rfl
  have hbatch : (t.shape.scaled scale).batch = n := h.batch
  unfold Tensor.resample
  refine .of_ofFn hb hbatch hshape fun c y x hc hy hx => ?_
  have hheight : (u.shape.scaled scale).height = (t.shape.scaled scale).height := by rw [hshape]
  have hwidth : (u.shape.scaled scale).width = (t.shape.scaled scale).width := by rw [hshape]
  simp only [Array.getElem?_ofFn, hheight, hwidth, hy, hx, ↓reduceDIte, h.height, h.width]
  exact h.getBlended hc ⟨Tap.ofIndex_low_le .., Tap.ofIndex_high_le ..⟩
    ⟨Tap.ofIndex_low_le .., Tap.ofIndex_high_le ..⟩

theorem expand (h : IsEntry n b t u) : Corresponds (IsEntry n b) t.expand u.expand := by
  unfold Tensor.expand
  rw [h.height, h.width]
  split
  · exact .error _ _
  · have hrows : IsEntry n b t.expandRows u.expandRows := by
      refine .of_ofFn hb h.batch (by rw [h.shape]; rfl) fun c y x hc hy hx => ?_
      rw [h.height]
      exact expandedSample_congr hy fun k hk => h.get_of_le hc hk (Nat.le_sub_one_of_lt hx)
    refine .ok (.of_ofFn hb hrows.batch (by rw [hrows.shape]; rfl) fun c y x hc hy hx => ?_)
    rw [hrows.width]
    exact expandedSample_congr hx fun k hk => hrows.get_of_le hc (Nat.le_sub_one_of_lt hy) hk

theorem shuffle (h : IsEntry n b t u) (r : Nat) :
    Corresponds (IsEntry n b) (t.shuffle r) (u.shuffle r) := by
  rcases Nat.lt_or_ge maxCount (r * r) with hlt | hle
  · rw [t.shuffle_of_lt hlt, u.shuffle_of_lt hlt]
    exact .error _ _
  rw [t.shuffle_of_le hle, u.shuffle_of_le hle, h.channels]
  split
  · exact .error _ _
  · next hr =>
    simp only [Bool.or_eq_true, beq_iff_eq, bne_iff_ne, ne_eq, not_or, Decidable.not_not] at hr
    have hpos : 0 < r := Nat.pos_of_ne_zero hr.1
    refine .ok (.of_ofFn hb h.batch (by rw [h.shape]; rfl) fun c y x hc hy hx => ?_)
    refine h.samples _ _ _ ?_ ((Nat.div_lt_iff_lt_mul hpos).mpr hy)
      ((Nat.div_lt_iff_lt_mul hpos).mpr hx)
    -- The cell of the output names one of the `r * r` channels that follow the first one.
    have hcell : y % r * r + x % r < r * r := by
      have hrow : y % r + 1 ≤ r := Nat.mod_lt y hpos
      calc y % r * r + x % r < y % r * r + r := Nat.add_lt_add_left (Nat.mod_lt x hpos) _
        _ = (y % r + 1) * r := by rw [Nat.add_mul, Nat.one_mul]
        _ ≤ r * r := Nat.mul_le_mul_right r hrow
    have hnext : c + 1 ≤ t.shape.channels / (r * r) := hc
    calc c * (r * r) + y % r * r + x % r < c * (r * r) + r * r := by omega
      _ = (c + 1) * (r * r) := by rw [Nat.add_mul, Nat.one_mul]
      _ ≤ t.shape.channels / (r * r) * (r * r) := Nat.mul_le_mul_right _ hnext
      _ ≤ t.shape.channels := Nat.div_mul_le_self _ _

omit hb in
theorem resize {t u : Tensor Float32} (hb : b < n) (h : IsEntry n b t u) (scale : Float)
    (filter : Filter) :
    Corresponds (IsEntry n b) (t.resize scale filter) (u.resize scale filter) := by
  unfold Tensor.resize
  split
  · exact .error _ _
  · by_cases hempty : (scaledExtent t.shape.height scale == 0
        || scaledExtent t.shape.width scale == 0) = true
    · simp only [Shape.scaled, Shape.resized, h.height, h.width, hempty, ↓reduceIte]
      exact .error _ _
    · simp only [Shape.scaled, Shape.resized, h.height, h.width, hempty]
      exact .ok (h.resample hb scale filter)

/-! ## Sums, crops and joins -/

theorem prelu (h : IsEntry n b t u) (slope : α) : IsEntry n b (t.prelu slope) (u.prelu slope) :=
  h.map hb _

theorem add {t' u' : Tensor α} (h : IsEntry n b t u) (h' : IsEntry n b t' u') :
    Corresponds (IsEntry n b) (t.add t') (u.add u') := by
  have hiff := h.shape_eq_iff h'
  by_cases hshape : t.shape = t'.shape
  · obtain ⟨r, hr⟩ : ∃ r, t.add t' = .ok r := ⟨_, dif_pos hshape⟩
    obtain ⟨r', hr'⟩ : ∃ r, u.add u' = .ok r := ⟨_, dif_pos (hiff.mpr hshape)⟩
    obtain ⟨-, hrshape, hrget⟩ := add_eq_ok.mp hr
    obtain ⟨-, hrshape', hrget'⟩ := add_eq_ok.mp hr'
    rw [hr, hr']
    refine .ok ⟨hrshape ▸ h.batch, by rw [hrshape', hrshape, h.shape], fun c y x hc hy hx => ?_⟩
    rw [hrshape] at hc hy hx
    have hone : 0 < u.shape.batch := by rw [h.shape]; exact Nat.zero_lt_one
    rw [hrget b c y x (h.batch ▸ hb) hc hy hx, hrget' 0 c y x hone (h.channels ▸ hc)
      (h.height ▸ hy) (h.width ▸ hx), h.samples c y x hc hy hx,
      h'.samples c y x (hshape ▸ hc) (hshape ▸ hy) (hshape ▸ hx)]
  · rw [Tensor.add, Tensor.add, dif_neg hshape, dif_neg (hiff.not.mpr hshape)]
    exact .error _ _

theorem crop (h : IsEntry n b t u) (height width : Nat) :
    Corresponds (IsEntry n b) (t.crop height width) (u.crop height width) := by
  unfold Tensor.crop
  rw [h.height, h.width]
  split
  · exact .error _ _
  · next hfits =>
    simp only [Bool.or_eq_true, decide_eq_true_eq, not_or, Nat.not_lt] at hfits
    split
    · exact .ok h
    · refine .ok (.of_ofFn hb h.batch (by rw [h.shape]; rfl) fun c y x hc hy hx => ?_)
      exact h.samples c y x hc (Nat.lt_of_lt_of_le hy hfits.1) (Nat.lt_of_lt_of_le hx hfits.2)

omit hb in
/-- The channels of joined arrays of the same rows and columns. -/
theorem getFromParts {ts us : List (Tensor α)} (h : List.Forall₂ (IsEntry n b) ts us) {c y x : Nat}
    (hc : c < total (ts.map (·.shape.channels)))
    (hspatial : ∀ t ∈ ts, y < t.shape.height ∧ x < t.shape.width) :
    getFromParts us 0 c y x = getFromParts ts b c y x := by
  induction h generalizing c with
  | nil => exact absurd hc (Nat.not_lt_zero c)
  | @cons t u ts us htu _ ih =>
    obtain ⟨hfirst, hrest⟩ := List.forall_mem_cons.mp hspatial
    simp only [List.map_cons, total] at hc
    unfold Tensor.getFromParts
    rw [htu.channels]
    split
    · next hlt => exact htu.samples c y x hlt hfirst.1 hfirst.2
    · exact ih (by omega) hrest

omit hb in
theorem map_channels {ts us : List (Tensor α)} (h : List.Forall₂ (IsEntry n b) ts us) :
    us.map (·.shape.channels) = ts.map (·.shape.channels) := by
  induction h with
  | nil => rfl
  | cons htu _ ih => rw [List.map_cons, List.map_cons, htu.channels, ih]

omit hb in
/-- Whether all arrays have the extents of one of them, their channels aside. -/
theorem all_alike {t₀ u₀ : Tensor α} (h₀ : IsEntry n b t₀ u₀) {ts us : List (Tensor α)}
    (h : List.Forall₂ (IsEntry n b) ts us) :
    (us.all fun u => { u.shape with channels := u₀.shape.channels } == u₀.shape)
      = ts.all fun t => { t.shape with channels := t₀.shape.channels } == t₀.shape := by
  induction h with
  | nil => rfl
  | @cons t u ts us htu _ ih =>
    rw [List.all_cons, List.all_cons, ih]
    congr 1
    rw [Bool.eq_iff_iff, beq_iff_eq, beq_iff_eq, htu.shape, h₀.shape]
    have hbatch := htu.batch.trans h₀.batch.symm
    cases hs : t₀.shape
    simp_all

theorem concatChannels {ts us : List (Tensor α)} (h : List.Forall₂ (IsEntry n b) ts us) :
    Corresponds (IsEntry n b) (concatChannels ts) (concatChannels us) := by
  cases h with
  | nil => exact .error _ _
  | @cons t u ts us htu hrest =>
    have hall := List.Forall₂.cons htu hrest
    unfold Tensor.concatChannels
    simp only [all_alike htu hall, map_channels hall]
    split
    · next halike =>
      refine .ok (.of_ofFn hb htu.batch (by rw [htu.shape]) fun c y x hc hy hx => ?_)
      refine getFromParts hall hc fun t' ht' => ?_
      have hshape := beq_iff_eq.mp (List.all_eq_true.mp halike t' ht')
      have hheight := congrArg Shape.height hshape
      have hwidth := congrArg Shape.width hshape
      exact ⟨hheight ▸ hy, hwidth ▸ hx⟩
    · exact .error _ _

end IsEntry

end Tensor

end Midframe
