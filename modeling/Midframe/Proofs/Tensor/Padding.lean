import Midframe.Proofs.Scalar.Rational
import Midframe.Proofs.Tensor.Borders

/-!
# What padding does

Every position of a padded axis holds a sample of the axis, named by `Border.Reads`, or a zero. The
samples that were there stay where they were, behind what is added in front, so an array that is
extended to even extents is got back by cropping it.

Zeros and repeated edges can be added in one step or in two: a border around a border is a border of
the amounts of both. A mirror image of a mirror image is not.
-/

namespace Midframe

namespace Padding

theorem isZero_iff {p : Padding} :
    p.isZero = true ↔ p.top = 0 ∧ p.bottom = 0 ∧ p.left = 0 ∧ p.right = 0 := by
  simp only [isZero, Bool.and_eq_true, beq_iff_eq, and_assoc]

theorem add_of_isZero {p : Padding} (h : p.isZero = true) (q : Padding) : p + q = q := by
  obtain ⟨htop, hbottom, hleft, hright⟩ := isZero_iff.mp h
  show Padding.add p q = q
  simp only [add, htop, hbottom, hleft, hright, Nat.zero_add]

theorem isZero_of_add {p q : Padding} (h : (p + q).isZero = true) : p.isZero = true := by
  obtain ⟨htop, hbottom, hleft, hright⟩ := isZero_iff.mp h
  exact isZero_iff.mpr ⟨(Nat.add_eq_zero_iff.mp htop).1, (Nat.add_eq_zero_iff.mp hbottom).1,
    (Nat.add_eq_zero_iff.mp hleft).1, (Nat.add_eq_zero_iff.mp hright).1⟩

end Padding

theorem Shape.padded_add (s : Shape) (p q : Padding) :
    s.padded (p + q) = (s.padded p).padded q := by
  show s.padded (Padding.add p q) = (s.padded p).padded q
  simp only [padded, resized, Padding.add, Shape.mk.injEq, true_and]
  omega

namespace Border

variable {border : Border} {n before after : Nat}

/-! ## Positions of an axis -/

/-- What a border puts at position `i` of an axis of `n` samples: the index of a sample, or `none`
for a zero. Positions in front of the first sample are negative. -/
inductive Reads (n : Nat) : Border → Int → Option Nat → Prop
  /-- Within the axis, the sample that is there. -/
  | within {border : Border} {i : Int} {k : Nat} (hi : i = k) (hk : k < n) :
    Reads n border i (some k)
  /-- A zero beyond both edges. -/
  | zero {i : Int} (hi : i < 0 ∨ n ≤ i) : Reads n .zeros i none
  /-- The first sample repeated in front of the axis. -/
  | first {i : Int} (hi : i < 0) (hn : 0 < n) : Reads n .replicate i (some 0)
  /-- The last sample repeated behind it. -/
  | last {i : Int} {k : Nat} (hi : n ≤ i) (hk : k + 1 = n) : Reads n .replicate i (some k)
  /-- The mirror image in front of the axis. -/
  | mirroredFront {i : Int} {k : Nat} (hi : i < 0) (h : -i = k) (hk : k < n) :
      Reads n .reflect i (some k)
  /-- The mirror image behind it. -/
  | mirroredBehind {i : Int} {k : Nat} (hi : n ≤ i) (h : 2 * ((n : Int) - 1) - i = k) (hk : k < n) :
      Reads n .reflect i (some k)

theorem source?_eq_resolve?_of_admits (h : border.Reaches n before after ∨ before = 0 ∧ after = 0)
    {i : Nat} (hi : i < n + before + after) :
    border.source? n before i = border.resolve? n (i - before) := by
  rcases h with hreaches | ⟨rfl, rfl⟩
  · exact source?_eq_resolve? hreaches hi
  · have hwithin : 0 ≤ (i : Int) - (0 : Nat) ∧ (i : Int) - (0 : Nat) < n := by omega
    simp only [source?, resolve?]
    rw [if_pos hwithin, if_pos hwithin]

theorem source?_reads (h : border.Reaches n before after ∨ before = 0 ∧ after = 0) {i : Nat}
    (hi : i < n + before + after) : Reads n border (i - before) (border.source? n before i) := by
  unfold source?
  simp only
  split
  · next hwithin => exact .within (by omega) (by omega)
  · next hbeyond =>
    -- Where nothing is added there is no position beyond the axis, so the border itself reaches
    -- here.
    have hreaches := h.resolve_right fun hnone => by omega
    cases border with
    | zeros => exact .zero (by omega)
    | replicate =>
      have hn : 0 < n := hreaches
      by_cases hfront : (i : Int) - before < 0
      · have hzero : (max 0 (min ((i : Int) - before) (n - 1))).toNat = 0 := by omega
        rw [hzero]
        exact .first hfront hn
      · exact .last (by omega) (by omega)
    | reflect =>
      have hreach : max before after < n := hreaches
      by_cases hfront : (i : Int) - before < 0
      · exact .mirroredFront hfront (by rw [if_pos hfront]; omega) (by omega)
      · exact .mirroredBehind (by omega) (by rw [if_neg hfront]; omega) (by omega)

/-- The borders that look the same from an axis and from any axis that they have extended. -/
def Extends (border : Border) (n : Nat) : Prop := border = .zeros ∨ border = .replicate ∧ 0 < n

theorem Extends.resolve?_of_some (h : border.Extends n) {i : Int} {j : Nat}
    (hj : border.resolve? (n + before + after) i = some j) :
    j < n + before + after ∧ border.resolve? n (j - before) = border.resolve? n (i - before) := by
  rcases h with rfl | ⟨rfl, hn⟩
  · unfold resolve? at hj
    split at hj
    · cases hj
      refine ⟨by omega, ?_⟩
      congr 1
      omega
    · cases hj
  · rw [resolve?_replicate] at hj
    cases hj
    refine ⟨clampedIndex_lt (by omega) i, ?_⟩
    rw [resolve?_replicate, resolve?_replicate]
    unfold clampedIndex
    congr 1
    omega

theorem Extends.resolve?_of_none (h : border.Extends n) {i : Int}
    (hnone : border.resolve? (n + before + after) i = none) :
    border.resolve? n (i - before) = none := by
  rcases h with rfl | ⟨rfl, -⟩
  · unfold resolve? at hnone ⊢
    split at hnone
    · cases hnone
    · exact if_neg (by omega)
  · rw [resolve?_replicate] at hnone
    cases hnone

end Border

namespace Tensor

variable {α : Type} [Scalar α] {t u v : Tensor α} {p q : Padding} {border : Border}

theorem pad_of_isZero (t : Tensor α) (h : p.isZero = true) (border : Border) :
    t.pad p border = .ok t := if_pos h

/-! ## Samples of a padded array -/

theorem get_pad_window (h : t.pad p border = .ok u) {n c y x : Nat} (hn : n < t.shape.batch)
    (hc : c < t.shape.channels) (hy : y < t.shape.height) (hx : x < t.shape.width) :
    u.get n c (p.top + y) (p.left + x) = t.get n c y x := by
  obtain ⟨-, htable⟩ := pad_eq_ok.mp h
  have hrow : p.top + y < t.shape.height + p.top + p.bottom := by omega
  have hcolumn : p.left + x < t.shape.width + p.left + p.right := by omega
  have hshift (a b : Nat) : ((a + b : Nat) : Int) - a = b := by omega
  rw [htable.get hn hc hrow hcolumn, hshift, hshift]
  exact t.getBeyond_of_lt border n c hy hx

theorem get_pad (h : t.pad p border = .ok u) {n c y x : Nat} (hn : n < t.shape.batch)
    (hc : c < t.shape.channels) (hy : y < t.shape.height + p.top + p.bottom)
    (hx : x < t.shape.width + p.left + p.right) : u.get n c y x = t.getPadded p border n c y x := by
  obtain ⟨hadmits, htable⟩ := pad_eq_ok.mp h
  rw [htable.get hn hc hy hx, getPadded, Border.source?_eq_resolve?_of_admits hadmits.rows hy,
    Border.source?_eq_resolve?_of_admits hadmits.columns hx]
  rfl

theorem crop_pad_trailing {bottom right : Nat} (h : t.pad (.trailing bottom right) border = .ok u) :
    u.crop t.shape.height t.shape.width = .ok t := by
  obtain ⟨-, htable⟩ := pad_eq_ok.mp h
  have hshape : u.shape = t.shape.padded (.trailing bottom right) := htable.shape
  have hfits : t.shape.height ≤ u.shape.height ∧ t.shape.width ≤ u.shape.width := by
    simp only [hshape, Shape.padded, Shape.resized, Padding.trailing]
    omega
  obtain ⟨r, hr, hresized⟩ := exists_crop hfits.1 hfits.2
  have hleading := isLeading_of_crop hr
  have hsame : r.shape = t.shape := by
    rw [hresized, hshape]
    rfl
  rw [hr, ext_get hsame fun n c y x hn hc hy hx => ?_]
  rw [hleading.samples n c y x hn hc hy hx]
  rw [hsame] at hn hc hy hx
  have hwindow := get_pad_window h hn hc hy hx
  rwa [Padding.trailing, Nat.zero_add, Nat.zero_add] at hwindow

theorem padToEven_of_even (heven : t.shape.height % 2 = 0 ∧ t.shape.width % 2 = 0)
    (border : Border) : t.padToEven border = .ok t :=
  t.pad_of_isZero (Padding.isZero_iff.mpr ⟨rfl, heven.1, rfl, heven.2⟩) border

theorem shape_padToEven (h : t.padToEven border = .ok u) :
    u.shape.height % 2 = 0 ∧ u.shape.width % 2 = 0 := by
  obtain ⟨-, htable⟩ := pad_eq_ok.mp h
  simp only [htable.shape, Shape.padded, Shape.resized, Padding.trailing]
  omega

/-- An array can be padded if nothing is added, or zeros are, or there is an edge to repeat, or the
mirror images are smaller than it. Row and column of every new sample are read as the border says,
so the index that is looked up is one of the axis as it stands. The array itself lies within the
padded one, and comes out of the extension to even extents by cropping; a second extension adds
nothing. -/
theorem pad_reads_border (t : Tensor α) (p : Padding) (border : Border) :
    ((∃ u, t.pad p border = .ok u) ↔
      (p.top = 0 ∧ p.bottom = 0 ∧ p.left = 0 ∧ p.right = 0) ∨ border = .zeros ∨
      (border = .replicate ∧ 1 ≤ t.shape.height ∧ 1 ≤ t.shape.width) ∨
      (border = .reflect ∧ (p.top < t.shape.height ∧ p.bottom < t.shape.height) ∧
        p.left < t.shape.width ∧ p.right < t.shape.width)) ∧
    (∀ u, t.pad p border = .ok u →
      u.shape = ⟨t.shape.batch, t.shape.channels, t.shape.height + p.top + p.bottom,
        t.shape.width + p.left + p.right⟩ ∧
      (∀ y < u.shape.height, Border.Reads t.shape.height border (y - p.top)
        (border.source? t.shape.height p.top y)) ∧
      (∀ x < u.shape.width, Border.Reads t.shape.width border (x - p.left)
        (border.source? t.shape.width p.left x)) ∧
      (∀ n < t.shape.batch, ∀ c < t.shape.channels, ∀ y < u.shape.height, ∀ x < u.shape.width,
        u.get n c y x = match border.source? t.shape.height p.top y,
            border.source? t.shape.width p.left x with
          | some i, some j => t.get n c i j
          | _, _ => Scalar.zero) ∧
      ∀ n < t.shape.batch, ∀ c < t.shape.channels, ∀ y < t.shape.height, ∀ x < t.shape.width,
        u.get n c (p.top + y) (p.left + x) = t.get n c y x) ∧
    ∀ u, t.padToEven border = .ok u →
      u.crop t.shape.height t.shape.width = .ok t ∧ u.padToEven border = .ok u := by
  refine ⟨?_, fun u h => ?_, fun u h => ⟨crop_pad_trailing h, ?_⟩⟩
  · have hadmits : (∃ u, t.pad p border = .ok u) ↔ border.Admits p t.shape := by
      constructor
      · rintro ⟨u, hu⟩
        exact (pad_eq_ok.mp hu).1
      · intro h
        obtain ⟨u, hu, -⟩ := pad_of_admits h
        exact ⟨u, hu⟩
    rw [hadmits, Border.Admits, Padding.isZero_iff]
    refine or_congr_right ?_
    cases border with
    | zeros => simp [Border.Reaches]
    | replicate => simp [Border.Reaches, Nat.succ_le_iff]
    | reflect => simp [Border.Reaches]
  · obtain ⟨hadmits, htable⟩ := pad_eq_ok.mp h
    rw [htable.shape]
    refine ⟨rfl, fun y hy => Border.source?_reads hadmits.rows hy,
      fun x hx => Border.source?_reads hadmits.columns hx,
      fun n hn c hc y hy x hx => get_pad h hn hc hy hx,
      fun n hn c hc y hy x hx => get_pad_window h hn hc hy hx⟩
  · exact padToEven_of_even (shape_padToEven h) border

/-- Two rows of three columns, mirrored above and on both sides. -/
theorem pad_reads_border_mirror : ∃ t u v : Tensor ℚ,
    t = ofFn ⟨1, 1, 2, 3⟩ (fun _ _ y x => ((10 * y + x : Nat) : ℚ)) ∧
    t.pad ⟨1, 0, 2, 1⟩ .reflect = .ok u ∧ u.shape = ⟨1, 1, 3, 6⟩ ∧ u.get 0 0 0 0 = 12 ∧
    u.get 0 0 1 5 = 1 ∧ t.padToEven .reflect = .ok v ∧ v.crop 2 3 = .ok t ∧
    v.padToEven .reflect = .ok v := by
  obtain ⟨hok, hpadded, heven⟩ := pad_reads_border
    (ofFn ⟨1, 1, 2, 3⟩ fun _ _ y x => ((10 * y + x : Nat) : ℚ)) ⟨1, 0, 2, 1⟩ .reflect
  obtain ⟨u, hu⟩ := hok.mpr (.inr (.inr (.inr ⟨rfl, by decide, by decide⟩)))
  obtain ⟨hshape, -, -, hget, -⟩ := hpadded u hu
  rw [hshape] at hget
  obtain ⟨hcrop, hagain⟩ := heven _ rfl
  refine ⟨_, u, _, rfl, hu, hshape, ?_, ?_, rfl, hcrop, hagain⟩
  · rw [hget 0 (by decide) 0 (by decide) 0 (by decide) 0 (by decide)]
    decide +kernel
  · rw [hget 0 (by decide) 0 (by decide) 1 (by decide) 5 (by decide)]
    decide +kernel

/-! ## Borders around borders -/

/-- Beyond an array that a border has extended, the same border shows what it shows beyond the array
itself. -/
theorem getBeyond_of_pad (h : t.pad p border = .ok u) (hheight : border.Extends t.shape.height)
    (hwidth : border.Extends t.shape.width) {n c : Nat} (hn : n < t.shape.batch)
    (hc : c < t.shape.channels) (y x : Int) :
    u.getBeyond border n c y x = t.getBeyond border n c (y - p.top) (x - p.left) := by
  obtain ⟨-, htable⟩ := pad_eq_ok.mp h
  have hrows : u.shape.height = t.shape.height + p.top + p.bottom := by rw [htable.shape]; rfl
  have hcolumns : u.shape.width = t.shape.width + p.left + p.right := by rw [htable.shape]; rfl
  unfold getBeyond
  rw [hrows, hcolumns]
  cases hrow : border.resolve? (t.shape.height + p.top + p.bottom) y with
  | none => rw [hheight.resolve?_of_none hrow]
  | some j =>
    obtain ⟨hj, hrow⟩ := hheight.resolve?_of_some hrow
    rw [← hrow]
    cases hcolumn : border.resolve? (t.shape.width + p.left + p.right) x with
    | none =>
      rw [hwidth.resolve?_of_none hcolumn]
      cases border.resolve? t.shape.height (j - p.top) <;> rfl
    | some k =>
      obtain ⟨hk, hcolumn⟩ := hwidth.resolve?_of_some hcolumn
      rw [← hcolumn]
      exact htable.get hn hc hj hk

theorem pad_pad_of_extends (hp : border.Admits p t.shape) (hq : border.Admits q (t.shape.padded p))
    (hpq : border.Admits (p + q) t.shape) (hheight : border.Extends t.shape.height)
    (hwidth : border.Extends t.shape.width) :
    (t.pad p border >>= fun u => u.pad q border) = t.pad (p + q) border := by
  obtain ⟨u, hu, htable⟩ := pad_of_admits hp
  obtain ⟨v, hv, htwice⟩ := pad_of_admits (t := u) (p := q) (htable.shape ▸ hq)
  obtain ⟨w, hw, honce⟩ := pad_of_admits hpq
  rw [hu, hw]
  refine hv.trans (congrArg Except.ok ?_)
  refine Tabulates.unique htwice ⟨?_, fun {n c y x} hn hc hy hx => ?_⟩
  · rw [honce.shape, htable.shape, Shape.padded_add]
  · rw [htable.shape] at hn hc hy hx
    rw [getBeyond_of_pad hu hheight hwidth hn hc]
    rw [← Shape.padded_add] at hn hc hy hx
    rw [honce.get hn hc hy hx]
    have hshift (a b : Nat) (i : Int) : i - b - a = i - (a + b : Nat) := by omega
    rw [hshift, hshift]
    rfl

/-- Zeros around zeros, and repeated edges around repeated edges. Where there is nothing to repeat,
either way of padding is refused in the same words. -/
theorem pad_pad (t : Tensor α) (p q : Padding) :
    (t.pad p .zeros >>= fun u => u.pad q .zeros) = t.pad (p + q) .zeros ∧
    (t.pad p .replicate >>= fun u => u.pad q .replicate) = t.pad (p + q) .replicate := by
  have hzeros (r : Padding) (s : Shape) : Border.zeros.Admits r s := .inr ⟨trivial, trivial⟩
  refine ⟨pad_pad_of_extends (hzeros p _) (hzeros q _) (hzeros _ _) (.inl rfl) (.inl rfl), ?_⟩
  -- Adding nothing is not checked, so an empty array can pass the first step; then the second one
  -- decides, as it does for the sum.
  by_cases hzero : p.isZero = true
  · rw [t.pad_of_isZero hzero, Padding.add_of_isZero hzero]
    rfl
  by_cases hempty : t.shape.height = 0 ∨ t.shape.width = 0
  · have hsum : ¬(p + q).isZero = true := fun h => hzero (Padding.isZero_of_add h)
    have hrefuse (r : Padding) : Border.replicate.check r t.shape
        = .error (.invalid (.replicateEmpty t.shape)) := if_pos (by simpa using hempty)
    unfold pad
    rw [if_neg hzero, if_neg hsum, hrefuse, hrefuse]
    rfl
  · have hheight : 0 < t.shape.height := Nat.pos_of_ne_zero fun h => hempty (.inl h)
    have hwidth : 0 < t.shape.width := Nat.pos_of_ne_zero fun h => hempty (.inr h)
    have hadmits (r : Padding) : Border.replicate.Admits r t.shape := .inr ⟨hheight, hwidth⟩
    have hagain : Border.replicate.Admits q (t.shape.padded p) := .inr
      ⟨Nat.add_pos_left (Nat.add_pos_left hheight _) _,
        Nat.add_pos_left (Nat.add_pos_left hwidth _) _⟩
    exact pad_pad_of_extends (hadmits p) hagain (hadmits _) (.inr ⟨rfl, hheight⟩)
      (.inr ⟨rfl, hwidth⟩)

end Tensor

end Midframe
