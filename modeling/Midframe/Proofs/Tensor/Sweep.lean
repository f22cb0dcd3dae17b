import Midframe.Proofs.Tensor.Borders

/-!
# Sweeps

The samples of a convolution can be gathered plane by plane, from flat slices of all samples. Every
tap is multiplied into the whole output plane, row by row, and the slice that a row is read from
runs on to the end of the padded plane. As long as the taps of all windows lie within the padded
rows and columns, every read and every write of these sweeps succeeds, no read runs on into the next
row, and they leave what `Tensor.gather` finds under each window.
-/

namespace Midframe

/-! ## Loops -/

/-- Positions in flat order stay below the product of the extents. -/
theorem mul_add_lt_mul {a b y x : Nat} (hy : y < a) (hx : x < b) : y * b + x < a * b :=
  calc y * b + x < y * b + b := Nat.add_lt_add_left hx _
    _ = (y + 1) * b := (Nat.succ_mul y b).symm
    _ ≤ a * b := Nat.mul_le_mul_right b hy

theorem fold_eq_foldl_range {β : Type} (n : Nat) (f : Nat → β → β) (b : β) :
    Nat.fold n (fun i _ acc => f i acc) b = (List.range n).foldl (fun acc i => f i acc) b := by
  induction n with
  | zero => rfl
  | succ n ih => rw [Nat.fold_succ, ih, List.range_succ, List.foldl_append]; rfl

/-- A counting loop all of whose steps succeed. -/
theorem foldlM_range {β : Type} {f : β → Nat → Option β} {n : Nat} (state : Nat → β)
    (h : ∀ k < n, f (state k) k = some (state (k + 1))) :
    (List.range n).foldlM f (state 0) = some (state n) := by
  induction n with
  | zero => rfl
  | succ n ih =>
    rw [List.range_succ, List.foldlM_append, ih fun k hk => h k (Nat.lt_succ_of_lt hk)]
    simpa using h n (Nat.lt_succ_self n)

namespace Tensor

/-! ## Slices -/

section Slices

variable {β : Type} {f g : Nat → β} {len : Nat}

/-- `count` samples from position `start` on, if there are as many. -/
def slice? (samples : List β) (start count : Nat) : Option (List β) :=
  if start + count ≤ samples.length then some ((samples.drop start).take count) else none

/-- All samples from position `start` on. -/
def rest? (samples : List β) (start : Nat) : Option (List β) :=
  slice? samples start (samples.length - start)

theorem rest?_of_le {samples : List β} {start : Nat} (h : start ≤ samples.length) :
    rest? samples start = some (samples.drop start) := by
  have htake : (samples.drop start).take (samples.length - start) = samples.drop start :=
    List.take_of_length_le (Nat.le_of_eq List.length_drop)
  rw [rest?, slice?, if_pos (by omega), htake]

/-- The first `len` values of a function. -/
def tabulate (len : Nat) (f : Nat → β) : List β := (List.range len).map f

theorem tabulate_congr (h : ∀ k < len, f k = g k) : tabulate len f = tabulate len g :=
  List.map_congr_left fun k hk => h k (List.mem_range.mp hk)

theorem getElem?_tabulate {k : Nat} (h : k < len) : (tabulate len f)[k]? = some (f k) := by
  rw [tabulate, List.getElem?_map, List.getElem?_range h, Option.map_some]

/-- Values that are replaced one after the other. -/
theorem set_tabulate (m : Nat) :
    (tabulate len fun k => if k < m then g k else f k).set m (g m) =
      tabulate len fun k => if k < m + 1 then g k else f k := by
  refine List.ext_getElem (by simp [tabulate]) fun k _ _ => ?_
  simp only [tabulate, List.getElem_set, List.getElem_map, List.getElem_range]
  rcases Nat.lt_trichotomy k m with hk | rfl | hk
  · rw [if_neg (Nat.ne_of_gt hk), if_pos hk, if_pos (Nat.lt_succ_of_lt hk)]
  · rw [if_pos rfl, if_pos (Nat.lt_succ_self k)]
  · rw [if_neg (Nat.ne_of_lt hk), if_neg (Nat.not_lt_of_gt hk), if_neg (by omega)]

/-- A loop that changes every value of a table by itself. -/
theorem foldlM_tabulate {γ : Type} {step : List β → γ → Option (List β)} {h : Nat → β → γ → β}
    {l : List γ}
    (hstep : ∀ c ∈ l, ∀ f, step (tabulate len f) c = some (tabulate len fun k => h k (f k) c)) :
    l.foldlM step (tabulate len f) = some (tabulate len fun k => l.foldl (h k) (f k)) := by
  induction l generalizing f with
  | nil => rfl
  | cons c l ih =>
    rw [List.foldlM_cons, hstep c List.mem_cons_self]
    exact ih fun c hc => hstep c (List.mem_cons_of_mem _ hc)

end Slices

/-! ## Planes -/

variable {α : Type} [Scalar α]

/-- The samples of one channel of an entry, row by row. -/
def plane (t : Tensor α) (n c : Nat) : List α :=
  tabulate (t.shape.height * t.shape.width) fun k =>
    t.get n c (k / t.shape.width) (k % t.shape.width)

theorem Tabulates.plane {t : Tensor α} {s : Shape} {f : Nat → Nat → Nat → Nat → α}
    (h : t.Tabulates s f) {n c : Nat} (hn : n < s.batch) (hc : c < s.channels) :
    t.plane n c = tabulate (s.height * s.width) fun k => f n c (k / s.width) (k % s.width) := by
  rw [Tensor.plane, h.shape]
  refine tabulate_congr fun k hk => ?_
  have hwidth : 0 < s.width := Nat.pos_of_ne_zero fun h => by simp [h] at hk
  exact h.get hn hc ((Nat.div_lt_iff_lt_mul hwidth).mpr hk) (Nat.mod_lt k hwidth)

/-- The plane of a channel is a slice of all samples. -/
theorem slice?_plane (t : Tensor α) {n c : Nat} (hn : n < t.shape.batch)
    (hc : c < t.shape.channels) :
    slice? t.data.toList ((n * t.shape.channels + c) * t.shape.height * t.shape.width)
      (t.shape.height * t.shape.width) = some (t.plane n c) := by
  have hfits : (n * t.shape.channels + c) * t.shape.height * t.shape.width +
      t.shape.height * t.shape.width ≤ t.data.toList.length := by
    rw [Vector.length_toList, Shape.size, Nat.mul_assoc, ← Nat.succ_mul,
      Nat.mul_assoc (t.shape.batch * _)]
    exact Nat.mul_le_mul_right _ (mul_add_lt_mul hn hc)
  rw [slice?, if_pos hfits]
  have hlength : ((t.data.toList.drop ((n * t.shape.channels + c) * t.shape.height *
      t.shape.width)).take (t.shape.height * t.shape.width)).length = (t.plane n c).length := by
    rw [List.length_take, List.length_drop, Nat.min_eq_left (by omega)]
    simp [plane, tabulate]
  refine congrArg some (List.ext_getElem hlength fun k _ hk => ?_)
  replace hk : k < t.shape.height * t.shape.width := by simpa [plane, tabulate] using hk
  have hwidth : 0 < t.shape.width := Nat.pos_of_ne_zero fun h => by simp [h] at hk
  have hlt := Shape.offset_lt hn hc ((Nat.div_lt_iff_lt_mul hwidth).mpr hk) (Nat.mod_lt k hwidth)
  have hoffset : t.shape.offset n c (k / t.shape.width) (k % t.shape.width) =
      (n * t.shape.channels + c) * t.shape.height * t.shape.width + k := by
    rw [Shape.offset, Nat.add_mul, Nat.add_assoc, Nat.div_add_mod']
  simp only [List.getElem_take, List.getElem_drop, plane, tabulate, List.getElem_map,
    List.getElem_range, get_of_lt hlt, hoffset]
  rfl

theorem getElem?_plane (t : Tensor α) (n c : Nat) {y x : Nat} (hy : y < t.shape.height)
    (hx : x < t.shape.width) : (t.plane n c)[y * t.shape.width + x]? = some (t.get n c y x) := by
  rw [plane, getElem?_tabulate (mul_add_lt_mul hy hx), mul_add_div_of_lt hx,
    Nat.mul_add_mod_of_lt hx]

/-- A row that runs on to the end of its plane. -/
theorem getElem?_rest?_plane (t : Tensor α) (n c : Nat) {y : Nat} (hy : y < t.shape.height) :
    ∃ row, rest? (t.plane n c) (y * t.shape.width) = some row ∧
      ∀ x < t.shape.width, row[x]? = some (t.get n c y x) := by
  have hle : y * t.shape.width ≤ (t.plane n c).length := by
    rw [plane, tabulate, List.length_map, List.length_range]
    exact Nat.mul_le_mul_right _ (Nat.le_of_lt hy)
  refine ⟨_, rest?_of_le hle, fun x hx => ?_⟩
  rw [List.getElem?_drop, t.getElem?_plane n c hy hx]

/-! ## Output planes -/

variable {padded weight : Tensor α} {w : Windows}

/-- One tap of a kernel is multiplied into an output plane of `height` rows and `width` columns, row
by row, from a plane whose rows have `columns` samples. -/
def sweepTap (w : Windows) (height width columns ky kx : Nat) (weight : α)
    (source dest : List α) : Option (List α) :=
  (List.range height).foldlM (fun dest y => do
    let row ← rest? source ((y * w.stride + ky) * columns)
    (List.range width).foldlM (fun dest x => do
      let value ← row[x * w.stride + kx]?
      let sum ← dest[y * width + x]?
      return dest.set (y * width + x) (sum + weight * value)) dest) dest

/-- An output plane of `height` rows and `width` columns, to which the taps are added one after the
other. -/
def sweepPlane (padded weight : Tensor α) (start : α) (w : Windows) (height width n o : Nat) :
    Option (List α) :=
  let ⟨_, inputs, rows, columns⟩ := weight.shape
  (List.range inputs).foldlM (fun dest i => do
    let source ← slice? padded.data.toList
      ((n * inputs + i) * padded.shape.height * padded.shape.width)
      (padded.shape.height * padded.shape.width)
    let kernel ← slice? weight.data.toList ((o * inputs + i) * rows * columns) (rows * columns)
    (List.range rows).foldlM (fun dest ky =>
      (List.range columns).foldlM (fun dest kx => do
        let value ← kernel[ky * columns + kx]?
        if Scalar.isZero value then return dest
        else sweepTap w height width padded.shape.width ky kx value source dest) dest) dest)
    (List.replicate (height * width) start)

theorem sweepTap_plane {n c height width ky kx : Nat} (value : α) (f : Nat → α)
    (hrows : ∀ y < height, y * w.stride + ky < padded.shape.height)
    (hcolumns : ∀ x < width, x * w.stride + kx < padded.shape.width) :
    sweepTap w height width padded.shape.width ky kx value (padded.plane n c)
        (tabulate (height * width) f)
      = some (tabulate (height * width) fun k => f k +
          value * padded.get n c (k / width * w.stride + ky) (k % width * w.stride + kx)) := by
  let g (k : Nat) : α :=
    f k + value * padded.get n c (k / width * w.stride + ky) (k % width * w.stride + kx)
  -- Behind `m` samples of the plane, these hold their new values and the others their old ones.
  let state (m : Nat) : List α := tabulate (height * width) fun k => if k < m then g k else f k
  have hstart : tabulate (height * width) f = state (0 * width) := by
    refine tabulate_congr fun k _ => ?_
    rw [Nat.zero_mul, if_neg (Nat.not_lt_zero k)]
  have hstop : state (height * width) = tabulate (height * width) g :=
    tabulate_congr fun k hk => if_pos hk
  rw [sweepTap, hstart]
  refine (foldlM_range (fun y => state (y * width)) fun y hy => ?_).trans (congrArg some hstop)
  obtain ⟨row, hrow, hsamples⟩ := padded.getElem?_rest?_plane n c (hrows y hy)
  rw [hrow, Nat.succ_mul]
  refine foldlM_range (fun x => state (y * width + x)) fun x hx => ?_
  have hvalue : g (y * width + x) = f (y * width + x) +
      value * padded.get n c (y * w.stride + ky) (x * w.stride + kx) := by
    simp only [g, mul_add_div_of_lt hx, Nat.mul_add_mod_of_lt hx]
  have hold : (state (y * width + x))[y * width + x]? = some (f (y * width + x)) := by
    rw [getElem?_tabulate (mul_add_lt_mul hy hx), if_neg (Nat.lt_irrefl _)]
  rw [hsamples _ (hcolumns x hx), hold]
  show some ((state (y * width + x)).set (y * width + x) _) = some (state (y * width + (x + 1)))
  rw [← hvalue]
  exact congrArg some (set_tabulate _)

/-- Sweeps over the slices of a padded array gather what lies under every window. -/
theorem sweepPlane_eq (start : α) {height width n o : Nat} (hn : n < padded.shape.batch)
    (ho : o < weight.shape.batch) (hchannels : weight.shape.channels = padded.shape.channels)
    (hrows : ∀ y < height, ∀ ky < weight.shape.height,
      y * w.stride + ky < padded.shape.height)
    (hcolumns : ∀ x < width, ∀ kx < weight.shape.width,
      x * w.stride + kx < padded.shape.width) :
    sweepPlane padded weight start w height width n o = some (tabulate (height * width) fun k =>
      gather padded weight start n o (k / width * w.stride) (k % width * w.stride)) := by
  have hstart : List.replicate (height * width) start = tabulate (height * width) fun _ => start :=
    by simp [tabulate]
  simp only [sweepPlane, gather, fold_eq_foldl_range, hstart]
  refine foldlM_tabulate fun i hi f => ?_
  have hi := List.mem_range.mp hi
  rw [hchannels, padded.slice?_plane hn (hchannels ▸ hi), ← hchannels, weight.slice?_plane ho hi]
  refine foldlM_tabulate fun ky hky f => foldlM_tabulate fun kx hkx f => ?_
  have hky := List.mem_range.mp hky
  have hkx := List.mem_range.mp hkx
  rw [weight.getElem?_plane o i hky hkx, Option.bind_eq_bind, Option.bind_some]
  split
  · rfl
  · exact sweepTap_plane _ f (fun y hy => hrows y hy ky hky) fun x hx => hcolumns x hx kx hkx

end Tensor

end Midframe
