import Midframe.Proofs.Tensor.Entries

/-!
# Borders

What a border holds can be told without padding anything: `Tensor.getBeyond` reads an array at any
row and column, whether they lie within it or not. Beyond the edges it finds zeros, the nearest
sample, or the mirror image of the array, and the index that is read there is one of the array
wherever the border reaches. A padded array is a table of what is read in this way.
-/

namespace Midframe

/-- The index nearest to a position along an axis of `n` samples. -/
def clampedIndex (n : Nat) (i : Int) : Nat := (max 0 (min i (n - 1))).toNat

theorem clampedIndex_lt {n : Nat} (h : 0 < n) (i : Int) : clampedIndex n i < n := by
  unfold clampedIndex
  omega

namespace Border

variable {border : Border} {n before after : Nat}

/-- The index of the sample that stands for position `i` of an axis of `n` samples, or `none` for a
zero. Positions in front of the first sample are negative. -/
def resolve? (border : Border) (n : Nat) (i : Int) : Option Nat :=
  if 0 ≤ i ∧ i < n then some i.toNat
  else match border with
    | zeros => none
    | replicate => some (clampedIndex n i)
    | reflect => some (if i < 0 then -i else 2 * ((n : Int) - 1) - i).toNat

/-- The border can add so many positions in front of and behind an axis of `n` samples. -/
def Reaches (border : Border) (n before after : Nat) : Prop :=
  match border with
  | zeros => True
  | replicate => 0 < n
  | reflect => max before after < n

instance (border : Border) (n before after : Nat) : Decidable (border.Reaches n before after) :=
  match border with
  | zeros => .isTrue trivial
  | replicate => inferInstanceAs (Decidable (0 < n))
  | reflect => inferInstanceAs (Decidable (max before after < n))

/-- An array of the given shape can be padded by the given amounts: nothing is added, or the border
reaches far enough along both axes. -/
def Admits (border : Border) (p : Padding) (s : Shape) : Prop :=
  p.isZero = true ∨ border.Reaches s.height p.top p.bottom ∧ border.Reaches s.width p.left p.right

theorem resolve?_of_lt (border : Border) {i : Nat} (h : i < n) : border.resolve? n i = some i :=
  if_pos ⟨Int.natCast_nonneg i, Int.ofNat_lt.mpr h⟩

theorem resolve?_replicate (n : Nat) (i : Int) :
    replicate.resolve? n i = some (clampedIndex n i) := by
  unfold resolve? clampedIndex
  split
  · congr 1
    omega
  · rfl

/-- What stands for a position within reach is one of the samples. -/
theorem resolve?_lt (h : border.Reaches n before after ∨ before = 0 ∧ after = 0) {i k : Nat}
    (hi : i < n + before + after) (hk : border.resolve? n (i - before) = some k) : k < n := by
  unfold resolve? at hk
  split at hk
  · cases hk
    omega
  · have hreaches := h.resolve_right fun _ => by omega
    cases border with
    | zeros => cases hk
    | replicate =>
      cases hk
      exact clampedIndex_lt hreaches _
    | reflect =>
      simp only [Reaches] at hreaches
      cases hk
      split <;> omega

/-- Padding reads the index that stands for the position, so that no index is held back at the
edges. -/
theorem source?_eq_resolve? (h : border.Reaches n before after) {i : Nat}
    (_ : i < n + before + after) : border.source? n before i = border.resolve? n (i - before) := by
  unfold source? resolve?
  simp only
  split
  · rfl
  · cases border with
    | zeros => rfl
    | replicate => rfl
    | reflect =>
      simp only [Reaches] at h
      simp only [Option.some.injEq]
      split <;> omega

theorem Admits.rows {p : Padding} {s : Shape} (h : border.Admits p s) :
    border.Reaches s.height p.top p.bottom ∨ p.top = 0 ∧ p.bottom = 0 := by
  simp only [Admits, Padding.isZero, Bool.and_eq_true, beq_iff_eq] at h
  exact h.elim (fun hzero => .inr hzero.1.1) fun hreaches => .inl hreaches.1

theorem Admits.columns {p : Padding} {s : Shape} (h : border.Admits p s) :
    border.Reaches s.width p.left p.right ∨ p.left = 0 ∧ p.right = 0 := by
  simp only [Admits, Padding.isZero, Bool.and_eq_true, beq_iff_eq] at h
  exact h.elim (fun hzero => .inr ⟨hzero.1.2, hzero.2⟩) fun hreaches => .inl hreaches.2

theorem fits_iff_admits {p : Padding} {s : Shape} : border.Fits p s ↔ border.Admits p s := by
  cases border with
  | zeros =>
    exact ⟨fun _ => .inr ⟨trivial, trivial⟩, fun _ => fits_zeros p s⟩
  | replicate =>
    simp only [Fits, Admits, Reaches, check, Bool.or_eq_true, beq_iff_eq]
    refine or_congr_right ?_
    split
    · simp only [reduceCtorEq, false_iff]
      omega
    · simp only [true_iff]
      omega
  | reflect => exact fits_reflect

end Border

namespace Tensor

variable {α : Type} [Scalar α] {t u : Tensor α}

/-- The array has the shape `s`, and holds the values of `f` there. -/
structure Tabulates (t : Tensor α) (s : Shape) (f : Nat → Nat → Nat → Nat → α) : Prop where
  /-- The shape. -/
  shape : t.shape = s
  /-- The samples. -/
  get : ∀ {n c y x}, n < s.batch → c < s.channels → y < s.height → x < s.width →
    t.get n c y x = f n c y x

theorem tabulates_ofFn (s : Shape) (f : Nat → Nat → Nat → Nat → α) : (ofFn s f).Tabulates s f :=
  ⟨rfl, fun hn hc hy hx => get_ofFn f hn hc hy hx⟩

namespace Tabulates

variable {s : Shape} {f g : Nat → Nat → Nat → Nat → α}

theorem congr (h : t.Tabulates s f) (hfg : ∀ n c y x, n < s.batch → c < s.channels → y < s.height →
    x < s.width → f n c y x = g n c y x) : t.Tabulates s g :=
  ⟨h.shape, fun hn hc hy hx => (h.get hn hc hy hx).trans (hfg _ _ _ _ hn hc hy hx)⟩

/-- A table has no room for two arrays. -/
theorem unique (ht : t.Tabulates s f) (hu : u.Tabulates s f) : t = u := by
  refine ext_get (ht.shape.trans hu.shape.symm) ?_
  rw [ht.shape]
  exact fun n c y x hn hc hy hx => (ht.get hn hc hy hx).trans (hu.get hn hc hy hx).symm

end Tabulates

/-- The sample of a channel at any row and column, edges being continued by the border. -/
def getBeyond (t : Tensor α) (border : Border) (n c : Nat) (y x : Int) : α :=
  match border.resolve? t.shape.height y, border.resolve? t.shape.width x with
  | some y, some x => t.get n c y x
  | _, _ => Scalar.zero

theorem getBeyond_of_lt (t : Tensor α) (border : Border) (n c : Nat) {y x : Nat}
    (hy : y < t.shape.height) (hx : x < t.shape.width) :
    t.getBeyond border n c y x = t.get n c y x := by
  simp only [getBeyond, Border.resolve?_of_lt border hy, Border.resolve?_of_lt border hx]

/-- Padding gives the table of what is read around the array. -/
theorem pad_of_admits {p : Padding} {border : Border} (h : border.Admits p t.shape) :
    ∃ u, t.pad p border = .ok u ∧ u.Tabulates (t.shape.padded p) fun n c y x =>
      t.getBeyond border n c (y - p.top) (x - p.left) := by
  unfold pad
  by_cases hzero : p.isZero = true
  · rw [if_pos hzero, Shape.padded_of_isZero hzero]
    refine ⟨t, rfl, rfl, fun {n c y x} _ _ hy hx => ?_⟩
    obtain ⟨top, bottom, left, right⟩ := p
    simp only [Padding.isZero, Bool.and_eq_true, beq_iff_eq] at hzero
    obtain ⟨⟨⟨rfl, rfl⟩, rfl⟩, rfl⟩ := hzero
    simp only [Int.ofNat_zero, Int.sub_zero, t.getBeyond_of_lt border n c hy hx]
  · obtain ⟨hrows, hcolumns⟩ := h.resolve_left hzero
    have hcheck := (Border.fits_iff_admits.mpr h).resolve_left hzero
    rw [if_neg hzero, hcheck]
    refine ⟨_, rfl, (tabulates_ofFn _ _).congr ?_⟩
    intro n c y x _ _ (hy : y < t.shape.height + p.top + p.bottom)
      (hx : x < t.shape.width + p.left + p.right)
    rw [getPadded, Border.source?_eq_resolve? hrows hy, Border.source?_eq_resolve? hcolumns hx]
    rfl

/-- Padding succeeds exactly if the border reaches far enough. -/
theorem pad_eq_ok {p : Padding} {border : Border} : t.pad p border = .ok u ↔
    border.Admits p t.shape ∧ u.Tabulates (t.shape.padded p) fun n c y x =>
      t.getBeyond border n c (y - p.top) (x - p.left) := by
  constructor
  · intro h
    have hfits := ((t.pad_shape p border u.shape).mp (by rw [h]; rfl)).2
    obtain ⟨v, hv, htable⟩ := pad_of_admits (Border.fits_iff_admits.mp hfits)
    obtain rfl := Except.ok.inj (hv.symm.trans h)
    exact ⟨Border.fits_iff_admits.mp hfits, htable⟩
  · rintro ⟨h, htable⟩
    obtain ⟨v, hv, htable'⟩ := pad_of_admits h
    rw [hv, htable'.unique htable]

end Tensor

end Midframe
