import Midframe.Proofs.Block.Mirror
import Midframe.Pyramid.Pass

/-!
# Shape inference through pyramids

A pass over shapes applies the same blocks to the same shapes as the pass over batches that it
stands for. `encodeApplications` and `decodeApplications` list the blocks of a pass together with
the shapes they are applied to. A pass over batches succeeds exactly if the pass over their shapes
does and every block of the list can read its batch; the shapes of its results and the table it
leaves are then the inferred ones.
-/

namespace Midframe

/-- The shapes of optional batches. -/
abbrev shapesOf (values : List (Option (Tensor Float32))) : List (Option Shape) :=
  values.map (Option.map Tensor.shape)

/-- A block and the shape it is applied to. -/
structure Application where
  /-- The block. -/
  block : Block
  /-- The shape. -/
  shape : Shape

namespace Application

/-- All shapes that the block meets are exact. -/
def IsExact (a : Application) : Prop := ∀ s ∈ a.block.trail a.shape, s.IsExact

instance (a : Application) : Decidable a.IsExact :=
  inferInstanceAs (Decidable (∀ s ∈ a.block.trail a.shape, s.IsExact))

/-- The block can read batches of the shape. -/
def Readable (a : Application) : Prop := a.block.Readable a.shape

/-- All mirror images that the block takes reach far enough. -/
def MirrorsFit (a : Application) : Prop := a.block.MirrorsFit a.shape

/-- The application of a block, if there is one, to a value, if there is one. -/
def ofEdge : Option Block → Option Shape → List Application
  | some block, some s => [⟨block, s⟩]
  | _, _ => []

end Application

namespace Level

/-- The blocks of a level are regular. -/
structure IsRegular (l : Level) : Prop where
  /-- The horizontal block is regular. -/
  horizontal : ∀ b, l.horizontal = some b → b.IsRegular
  /-- The vertical block is regular. -/
  vertical : ∀ b, l.vertical = some b → b.IsRegular

/-- The blocks that a level applies to its own value and to that of its neighbour. -/
def applications (l : Level) (value source : Option Shape) : List Application :=
  Application.ofEdge l.horizontal value ++ Application.ofEdge l.vertical source

/-- A block applied to an optional batch. -/
theorem apply_shape {b : Block} (regular : b.IsRegular) {x : Tensor Float32}
    (exact : Application.IsExact ⟨b, x.shape⟩) (o : Option Shape) :
    (∃ y, (Flow.apply b x).map some = .ok y ∧ y.map Tensor.shape = o) ↔
      (Flow.apply b x.shape).map some = .ok o ∧ Application.Readable ⟨b, x.shape⟩ := by
  have hforward (t : Shape) := Block.forward_shape regular.isSound exact t
  simp only [map_eq_ok] at hforward ⊢
  constructor
  · rintro ⟨_, ⟨y, hy, rfl⟩, rfl⟩
    obtain ⟨hinfer, hread⟩ := (hforward y.shape).mp ⟨y, hy, rfl⟩
    exact ⟨⟨y.shape, hinfer, rfl⟩, hread⟩
  · rintro ⟨⟨t, hinfer, rfl⟩, hread⟩
    obtain ⟨y, hy, hys⟩ := (hforward t).mpr ⟨hinfer, hread⟩
    exact ⟨some y, ⟨y, hy, rfl⟩, congrArg some hys⟩

theorem ownValue_shape {l : Level} (regular : l.IsRegular) {v : Option (Tensor Float32)}
    (exact : ∀ a ∈ Application.ofEdge l.horizontal (v.map Tensor.shape), a.IsExact)
    (o : Option Shape) :
    (∃ y, l.ownValue v = .ok y ∧ y.map Tensor.shape = o) ↔
      l.ownValue (v.map Tensor.shape) = .ok o ∧
        ∀ a ∈ Application.ofEdge l.horizontal (v.map Tensor.shape), a.Readable := by
  unfold ownValue
  cases hblock : l.horizontal with
  | none => simp [Application.ofEdge]
  | some b =>
    rw [hblock] at exact
    cases v with
    | none => simp [Application.ofEdge]
    | some x =>
      have hexact := exact ⟨b, x.shape⟩ (by simp [Application.ofEdge])
      simpa [Application.ofEdge] using apply_shape (regular.horizontal b hblock) hexact o

theorem contribution_shape {l : Level} (regular : l.IsRegular) (scope : String)
    (level neighbour : Nat) {v : Option (Tensor Float32)}
    (exact : ∀ a ∈ Application.ofEdge l.vertical (v.map Tensor.shape), a.IsExact)
    (o : Option Shape) :
    (∃ y, l.contribution scope level neighbour v = .ok y ∧ y.map Tensor.shape = o) ↔
      l.contribution scope level neighbour (v.map Tensor.shape) = .ok o ∧
        ∀ a ∈ Application.ofEdge l.vertical (v.map Tensor.shape), a.Readable := by
  unfold contribution
  cases hblock : l.vertical with
  | none => simp [Application.ofEdge]
  | some b =>
    rw [hblock] at exact
    cases v with
    | none => simp
    | some x =>
      have hexact := exact ⟨b, x.shape⟩ (by simp [Application.ofEdge])
      simpa [Application.ofEdge] using apply_shape (regular.vertical b hblock) hexact o

/-- Sums and contributions brought to size have the inferred shapes. -/
theorem combine_shape (v : Option (Tensor Float32)) (c : Tensor Float32) :
    (combine v c).map Tensor.shape = combine (v.map Tensor.shape) c.shape := by
  cases v with
  | none => rfl
  | some x => exact x.add_shape c

theorem reconcile_shape (level : Nat) (c : Tensor Float32) (expected : Shape) :
    (reconcile level c expected).map Tensor.shape = reconcile level c.shape expected := by
  simp only [reconcile, Flow.shape, id_eq]
  rcases fits c.shape expected with _ | _ | _
  · rfl
  · rfl
  · show Except.map _ (if _ then _ else _) = if _ then _ else _
    split
    · rfl
    · exact c.crop_shape expected.height expected.width

/-! ## One level -/

section Joined

variable {τ : Type} [Flow τ]

/-- The own value of a level and a contribution, brought together by `fit`. -/
def joined (l : Level) (scope : String) (level neighbour : Nat)
    (fit : Option τ → τ → Except Fault (Option τ)) (input source : Option τ) :
    Except Fault (Option τ) := do
  let value ← l.ownValue input
  match ← l.contribution scope level neighbour source with
  | some c => fit value c
  | none => return value

/-- A contribution brought to the recorded size of the level and added to its own value. -/
def fitted (table : ShapeTable) (level : Nat) (value : Option τ) (c : τ) :
    Except Fault (Option τ) :=
  match table.get? level with
  | some expected => do
    let c ← reconcile level c expected
    some <$> combine value c
  | none => throw (.missingShapeRecord level)

theorem encode_eq_joined (l : Level) (scope : String) (level : Nat) (input below : Option τ) :
    l.encode scope level input below =
      l.joined scope level (level - 1) (fun v c => some <$> combine v c) input below := rfl

theorem decode_eq_joined (l : Level) (scope : String) (table : ShapeTable) (level : Nat)
    (input above : Option τ) : l.decode scope table level input above =
      l.joined scope level (level + 1) (fitted table level) input above := rfl

theorem joined_eq_ok {l : Level} {scope : String} {level neighbour : Nat}
    {fit : Option τ → τ → Except Fault (Option τ)} {input source o : Option τ} :
    l.joined scope level neighbour fit input source = .ok o ↔
      ∃ v c, l.ownValue input = .ok v ∧ l.contribution scope level neighbour source = .ok c ∧
        (c.elim (pure v) (fit v)) = .ok o := by
  unfold joined
  simp only [bind_eq_ok]
  constructor
  · rintro ⟨v, hv, c, hc, h⟩
    refine ⟨v, c, hv, hc, ?_⟩
    cases c <;> exact h
  · rintro ⟨v, c, hv, hc, h⟩
    refine ⟨v, hv, c, hc, ?_⟩
    cases c <;> exact h

end Joined

/-- A level that brings its own value and a contribution together, one way or the other. -/
theorem joined_shape {l : Level} (regular : l.IsRegular) (scope : String) (level neighbour : Nat)
    {fit : Option (Tensor Float32) → Tensor Float32 → Except Fault (Option (Tensor Float32))}
    {fitShapes : Option Shape → Shape → Except Fault (Option Shape)}
    (hfit : ∀ v c, (fit v c).map (Option.map Tensor.shape) = fitShapes (v.map Tensor.shape) c.shape)
    {input source : Option (Tensor Float32)}
    (exact : ∀ a ∈ l.applications (input.map Tensor.shape) (source.map Tensor.shape), a.IsExact)
    (o : Option Shape) :
    (∃ y, l.joined scope level neighbour fit input source = .ok y ∧ y.map Tensor.shape = o) ↔
      l.joined scope level neighbour fitShapes (input.map Tensor.shape) (source.map Tensor.shape)
          = .ok o ∧
        ∀ a ∈ l.applications (input.map Tensor.shape) (source.map Tensor.shape), a.Readable := by
  simp only [applications, List.forall_mem_append] at exact ⊢
  have hown := ownValue_shape regular exact.1
  have hcontribution := contribution_shape regular scope level neighbour exact.2
  simp only [joined_eq_ok]
  constructor
  · rintro ⟨y, ⟨v, c, hv, hc, h⟩, rfl⟩
    obtain ⟨hvs, hreads⟩ := (hown _).mp ⟨v, hv, rfl⟩
    obtain ⟨hcs, hreads'⟩ := (hcontribution _).mp ⟨c, hc, rfl⟩
    refine ⟨⟨v.map Tensor.shape, c.map Tensor.shape, hvs, hcs, ?_⟩, hreads, hreads'⟩
    cases c with
    | none =>
      cases h
      rfl
    | some c => exact (hfit v c).symm.trans (map_eq_ok.mpr ⟨y, h, rfl⟩)
  · rintro ⟨⟨vs, cs, hvs, hcs, h⟩, hreads, hreads'⟩
    obtain ⟨v, hv, rfl⟩ := (hown _).mpr ⟨hvs, hreads⟩
    obtain ⟨c, hc, rfl⟩ := (hcontribution _).mpr ⟨hcs, hreads'⟩
    cases c with
    | none => exact ⟨v, ⟨v, none, hv, hc, rfl⟩, pure_eq_ok.mp h⟩
    | some c =>
      obtain ⟨y, hy, hys⟩ := map_eq_ok.mp ((hfit v c).trans h)
      exact ⟨y, ⟨v, some c, hv, hc, hy⟩, hys⟩

theorem fitted_shape (table : ShapeTable) (level : Nat) (v : Option (Tensor Float32))
    (c : Tensor Float32) : (fitted table level v c).map (Option.map Tensor.shape)
      = fitted table level (v.map Tensor.shape) c.shape := by
  unfold fitted
  cases table.get? level with
  | none => rfl
  | some expected =>
    simp only
    rw [← reconcile_shape]
    cases reconcile level c expected with
    | error e => rfl
    | ok r =>
      show _ = some <$> combine (v.map Tensor.shape) r.shape
      rw [← combine_shape]
      show (some <$> combine v r).map _ = _
      cases combine v r <;> rfl

/-- A level of an encoder. -/
theorem encode_shape {l : Level} (regular : l.IsRegular) (scope : String) (level : Nat)
    {input below : Option (Tensor Float32)}
    (exact : ∀ a ∈ l.applications (input.map Tensor.shape) (below.map Tensor.shape), a.IsExact)
    (o : Option Shape) :
    (∃ y, l.encode scope level input below = .ok y ∧ y.map Tensor.shape = o) ↔
      l.encode scope level (input.map Tensor.shape) (below.map Tensor.shape) = .ok o ∧
        ∀ a ∈ l.applications (input.map Tensor.shape) (below.map Tensor.shape), a.Readable := by
  refine joined_shape regular scope level (level - 1) (fun v c => ?_) exact o
  rw [← combine_shape]
  cases combine v c <;> rfl

/-- A level of a decoder. -/
theorem decode_shape {l : Level} (regular : l.IsRegular) (scope : String) (table : ShapeTable)
    (level : Nat) {input above : Option (Tensor Float32)}
    (exact : ∀ a ∈ l.applications (input.map Tensor.shape) (above.map Tensor.shape), a.IsExact)
    (o : Option Shape) :
    (∃ y, l.decode scope table level input above = .ok y ∧ y.map Tensor.shape = o) ↔
      l.decode scope table level (input.map Tensor.shape) (above.map Tensor.shape) = .ok o ∧
        ∀ a ∈ l.applications (input.map Tensor.shape) (above.map Tensor.shape), a.Readable := by
  simp only [decode_eq_joined]
  exact joined_shape regular scope level (level + 1) (fitted_shape table level) exact o

end Level

namespace Pyramid

/-! ## Runs -/

/-- The table behind a level that is left with a value of this shape, or with none. -/
def recorded (table : ShapeTable) (level : Nat) : Option Shape → ShapeTable
  | some s => table.insert level s
  | none => table

section Runs

variable {τ : Type} [Flow τ]

theorem encodeLevels_of_ok {scope : String} {level : Nat} {below : Option τ} {l : Level}
    {input value : Option τ} (h : l.encode scope level input below = .ok value)
    (table : ShapeTable) (rest : List (Level × Option τ)) :
    encodeLevels scope level below table ((l, input) :: rest) =
      ((encodeLevels scope (level + 1) value (recorded table level (value.map Flow.shape))
        rest).1.map
        (value :: ·),
      (encodeLevels scope (level + 1) value (recorded table level (value.map Flow.shape))
        rest).2) := by
  simp only [encodeLevels, h]
  cases value <;> rfl

theorem encodeLevels_cons {scope : String} {level : Nat} {below : Option τ}
    {table left : ShapeTable}
    {l : Level} {input : Option τ} {rest : List (Level × Option τ)} {values : List (Option τ)} :
    encodeLevels scope level below table ((l, input) :: rest) = (.ok values, left) ↔
      ∃ value tail, l.encode scope level input below = .ok value ∧
        encodeLevels scope (level + 1) value (recorded table level (value.map Flow.shape)) rest
          = (.ok tail, left) ∧ value :: tail = values := by
  cases hvalue : l.encode scope level input below with
  | error e => simp [encodeLevels, hvalue]
  | ok value =>
    rw [encodeLevels_of_ok hvalue]
    simp only [Prod.mk.injEq, map_eq_ok, Except.ok.injEq]
    constructor
    · rintro ⟨⟨tail, htail, hvalues⟩, hleft⟩
      exact ⟨value, tail, rfl, Prod.ext htail hleft, hvalues⟩
    · rintro ⟨_, tail, rfl, hrun, hvalues⟩
      rw [hrun]
      exact ⟨⟨tail, rfl, hvalues⟩, rfl⟩

theorem decodeLevels_cons {scope : String} {table : ShapeTable} {level : Nat} {l : Level}
    {input : Option τ} {rest : List (Level × Option τ)} {values : List (Option τ)} :
    decodeLevels scope table level ((l, input) :: rest) = .ok values ↔
      ∃ value tail, decodeLevels scope table (level + 1) rest = .ok tail ∧
        l.decode scope table level input tail.head?.join = .ok value ∧ value :: tail = values := by
  simp only [decodeLevels, bind_eq_ok, pure_eq_ok]
  constructor
  · rintro ⟨tail, ht, value, hv, h⟩
    exact ⟨value, tail, ht, hv, h⟩
  · rintro ⟨value, tail, ht, hv, h⟩
    exact ⟨tail, ht, value, hv, h⟩

end Runs

/-- The applications of an encoder from position `level` on. -/
def encodeApplications (scope : String) (level : Nat) (below : Option Shape) :
    List (Level × Option Shape) → List Application
  | [] => []
  | (l, input) :: rest => l.applications input below ++
    match l.encode scope level input below with
    | .ok value => encodeApplications scope (level + 1) value rest
    | .error _ => []

/-- The applications of a decoder from position `level` on. -/
def decodeApplications (scope : String) (table : ShapeTable) (level : Nat) :
    List (Level × Option Shape) → List Application
  | [] => []
  | (l, input) :: rest => decodeApplications scope table (level + 1) rest ++
    match decodeLevels scope table (level + 1) rest with
    | .ok values => l.applications input values.head?.join
    | .error _ => []

/-- Levels with the shapes of their inputs. -/
abbrev levelShapes (levels : List (Level × Option (Tensor Float32))) :
    List (Level × Option Shape) := levels.map fun p => (p.1, p.2.map Tensor.shape)

theorem encodeLevels_shape {levels : List (Level × Option (Tensor Float32))}
    (regular : ∀ p ∈ levels, p.1.IsRegular) (scope : String) (level : Nat)
    {below : Option (Tensor Float32)} {table left : ShapeTable}
    (exact : ∀ a ∈ encodeApplications scope level (below.map Tensor.shape) (levelShapes levels),
      a.IsExact) (shapes : List (Option Shape)) :
    (∃ values, encodeLevels scope level below table levels = (.ok values, left) ∧
        shapesOf values = shapes) ↔
      encodeLevels scope level (below.map Tensor.shape) table (levelShapes levels)
          = (.ok shapes, left) ∧
        ∀ a ∈ encodeApplications scope level (below.map Tensor.shape) (levelShapes levels),
          a.Readable := by
  induction levels generalizing level below table shapes with
  | nil =>
    simp only [levelShapes, List.map_nil, encodeLevels, encodeApplications, Prod.mk.injEq,
      Except.ok.injEq, List.not_mem_nil, false_imp_iff, implies_true, and_true]
    constructor
    · rintro ⟨_, ⟨rfl, hleft⟩, rfl⟩
      exact ⟨rfl, hleft⟩
    · rintro ⟨rfl, hleft⟩
      exact ⟨[], ⟨rfl, hleft⟩, rfl⟩
  | cons p rest ih =>
    obtain ⟨l, input⟩ := p
    simp only [levelShapes, List.map_cons, encodeApplications, List.forall_mem_append] at exact ⊢
    have hlevel := Level.encode_shape (regular _ List.mem_cons_self) scope level exact.1
    have hrest := fun q hq => regular q (List.mem_cons_of_mem _ hq)
    have hshape (v : Option (Tensor Float32)) :
        v.map Flow.shape = (v.map Tensor.shape).map Flow.shape :=
      by cases v <;> rfl
    simp only [encodeLevels_cons]
    constructor
    · rintro ⟨_, ⟨value, tail, hvalue, htail, rfl⟩, rfl⟩
      obtain ⟨hinfer, hreads⟩ := (hlevel _).mp ⟨value, hvalue, rfl⟩
      simp only [hinfer] at exact ⊢
      rw [hshape] at htail
      obtain ⟨hrun, hreads'⟩ := (ih hrest (level + 1) exact.2 _).mp ⟨tail, htail, rfl⟩
      exact ⟨⟨_, _, rfl, hrun, rfl⟩, hreads, hreads'⟩
    · rintro ⟨⟨value, tail, hinfer, hrun, rfl⟩, hreads, hreads'⟩
      obtain ⟨v, hv, rfl⟩ := (hlevel value).mpr ⟨hinfer, hreads⟩
      simp only [hinfer] at exact hreads'
      rw [← hshape] at hrun
      obtain ⟨vs, hvs, rfl⟩ := (ih hrest (level + 1) exact.2 tail).mpr ⟨hrun, hreads'⟩
      exact ⟨v :: vs, ⟨v, vs, hv, hvs, rfl⟩, rfl⟩

theorem decodeLevels_shape {levels : List (Level × Option (Tensor Float32))}
    (regular : ∀ p ∈ levels, p.1.IsRegular) (scope : String) (table : ShapeTable) (level : Nat)
    (exact : ∀ a ∈ decodeApplications scope table level (levelShapes levels), a.IsExact)
    (shapes : List (Option Shape)) :
    (∃ values, decodeLevels scope table level levels = .ok values ∧ shapesOf values = shapes) ↔
      decodeLevels scope table level (levelShapes levels) = .ok shapes ∧
        ∀ a ∈ decodeApplications scope table level (levelShapes levels), a.Readable := by
  induction levels generalizing level shapes with
  | nil =>
    simp [levelShapes, decodeLevels, decodeApplications]
  | cons p rest ih =>
    obtain ⟨l, input⟩ := p
    simp only [levelShapes, List.map_cons, decodeApplications, List.forall_mem_append] at exact ⊢
    have hrest := fun q hq => regular q (List.mem_cons_of_mem _ hq)
    have hhead (vs : List (Option (Tensor Float32))) :
        (shapesOf vs).head?.join = vs.head?.join.map Tensor.shape := by
      cases vs <;> rfl
    simp only [decodeLevels_cons]
    constructor
    · rintro ⟨_, ⟨value, tail, htail, hvalue, rfl⟩, rfl⟩
      obtain ⟨hrun, hreads⟩ := (ih hrest (level + 1) exact.1 _).mp ⟨tail, htail, rfl⟩
      simp only [hrun, hhead] at exact ⊢
      obtain ⟨hinfer, hreads'⟩ := (Level.decode_shape (regular _ List.mem_cons_self) scope table
        level exact.2 _).mp ⟨value, hvalue, rfl⟩
      exact ⟨⟨_, _, rfl, by rw [hhead]; exact hinfer, rfl⟩, hreads, hreads'⟩
    · rintro ⟨⟨value, tail, hrun, hinfer, rfl⟩, hreads, hreads'⟩
      obtain ⟨vs, hvs, rfl⟩ := (ih hrest (level + 1) exact.1 tail).mpr ⟨hrun, hreads⟩
      simp only [hrun, hhead] at exact hreads' hinfer
      obtain ⟨v, hv, rfl⟩ := (Level.decode_shape (regular _ List.mem_cons_self) scope table level
        exact.2 value).mpr ⟨hinfer, hreads'⟩
      exact ⟨v :: vs, ⟨v, vs, hvs, hv, rfl⟩, rfl⟩

/-! ## Pyramids -/

variable {d : Direction}

/-- All blocks of a pyramid are regular. -/
def IsRegular (p : Pyramid d) : Prop := ∀ l ∈ p.levels, l.IsRegular

/-- The applications of an encoder to inputs of these shapes. -/
def encoderApplications (p : Encoder) (inputs : List (Option Shape)) : List Application :=
  encodeApplications p.scope 0 none (p.levels.zip inputs)

/-- The applications of a decoder to inputs of these shapes. -/
def decoderApplications (p : Decoder) (inputs : List (Option Shape)) (table : ShapeTable) :
    List Application :=
  decodeApplications p.scope table 0 (p.levels.zip inputs)

theorem levelShapes_zip (levels : List Level) (inputs : List (Option (Tensor Float32))) :
    levelShapes (levels.zip inputs) = levels.zip (shapesOf inputs) :=
  (List.zip_map_right ..).symm

theorem IsRegular.zip {p : Pyramid d} (regular : p.IsRegular)
    (inputs : List (Option (Tensor Float32))) : ∀ q ∈ p.levels.zip inputs, q.1.IsRegular :=
  fun _ hq => regular _ (List.of_mem_zip hq).1

theorem checkInputs_eq_ok {α : Type} {p : Pyramid d} {inputs : List α} :
    p.checkInputs inputs = .ok () ↔ inputs.length = p.levels.length := by
  unfold checkInputs
  split
  · next h =>
    constructor
    · intro h'
      cases h'
    · intro h'
      exact absurd h' (by simpa using h)
  · next h =>
    constructor
    · intro _
      simpa using h
    · intro _
      rfl

theorem checkInputs_shapesOf (p : Pyramid d) (inputs : List (Option (Tensor Float32))) :
    p.checkInputs (shapesOf inputs) = p.checkInputs inputs := by
  simp [checkInputs]

/-- The pass of an encoder over batches succeeds exactly if that over their shapes does and every
block can read its batch. -/
theorem encode_shape {p : Encoder} (regular : p.IsRegular) {inputs : List (Option (Tensor Float32))}
    (exact : ∀ a ∈ p.encoderApplications (shapesOf inputs), a.IsExact) {table left : ShapeTable}
    (shapes : List (Option Shape)) :
    (∃ values, p.encode inputs table = (.ok values, left) ∧ shapesOf values = shapes) ↔
      p.encode (shapesOf inputs) table = (.ok shapes, left) ∧
        ∀ a ∈ p.encoderApplications (shapesOf inputs), a.Readable := by
  unfold encode encoderApplications at *
  rw [checkInputs_shapesOf]
  cases p.checkInputs inputs with
  | error e => simp
  | ok u =>
    rw [← levelShapes_zip] at exact ⊢
    exact @encodeLevels_shape _ (regular.zip inputs) p.scope 0 none _ _ exact shapes

/-- The same for a decoder. -/
theorem decode_shape {p : Decoder} (regular : p.IsRegular) {inputs : List (Option (Tensor Float32))}
    {table : ShapeTable}
    (exact : ∀ a ∈ p.decoderApplications (shapesOf inputs) table, a.IsExact)
    (shapes : List (Option Shape)) :
    (∃ values, p.decode inputs table = .ok values ∧ shapesOf values = shapes) ↔
      p.decode (shapesOf inputs) table = .ok shapes ∧
        ∀ a ∈ p.decoderApplications (shapesOf inputs) table, a.Readable := by
  unfold decode decoderApplications at *
  rw [checkInputs_shapesOf]
  cases p.checkInputs inputs with
  | error e => simp
  | ok u =>
    rw [← levelShapes_zip] at exact ⊢
    exact decodeLevels_shape (regular.zip inputs) p.scope table 0 exact shapes

/-! ## Built pyramids -/

/-- Where both sides have channels there is a block, elsewhere there is none. -/
theorem edge_eq_ok {scope : String} {spec : SourcedSpec} {inputs outputs : Nat} {o : Option Block}
    (h : Level.edge scope spec inputs outputs = .ok o) :
    ((inputs = 0 ∨ outputs = 0) ∧ o = none) ∨ (inputs ≠ 0 ∧ outputs ≠ 0 ∧
      ∃ b, Block.build scope spec.source spec.spec [inputs, outputs, outputs] = .ok b ∧
        o = some b) := by
  unfold Level.edge at h
  split at h
  · next hnone =>
    cases h
    exact .inl ⟨by simpa using hnone, rfl⟩
  · next hsome =>
    obtain ⟨b, hb, rfl⟩ := map_eq_ok.mp h
    simp only [Bool.or_eq_true, beq_iff_eq, not_or] at hsome
    exact .inr ⟨hsome.1, hsome.2, b, hb, rfl⟩

/-- The blocks of a level. -/
theorem level_edges {scope : String} {horizontal vertical : SourcedSpec}
    {level inputs outputs neighbour : Nat} {l : Level}
    (h : Level.build scope horizontal vertical level inputs outputs neighbour = .ok l) :
    Level.edge (Level.horizontalScope scope level) horizontal inputs outputs = .ok l.horizontal ∧
      Level.edge (Level.verticalScope scope level) vertical neighbour outputs
        = .ok l.vertical := by
  simp only [Level.build, bind_eq_ok, pure_eq_ok] at h
  obtain ⟨_, hhorizontal, _, hvertical, rfl⟩ := h
  exact ⟨hhorizontal, hvertical⟩

theorem edge_isRegular {scope : String} {spec : SourcedSpec} {inputs outputs : Nat}
    {o : Option Block} (h : Level.edge scope spec inputs outputs = .ok o) :
    ∀ b, o = some b → b.IsRegular := by
  intro b hb
  rcases edge_eq_ok h with ⟨-, rfl⟩ | ⟨-, -, b', hb', rfl⟩
  · cases hb
  · cases hb
    exact Block.build_isRegular hb'

theorem level_isRegular {scope : String} {horizontal vertical : SourcedSpec}
    {level inputs outputs neighbour : Nat} {l : Level}
    (h : Level.build scope horizontal vertical level inputs outputs neighbour = .ok l) :
    l.IsRegular :=
  ⟨edge_isRegular (level_edges h).1, edge_isRegular (level_edges h).2⟩

theorem buildLevels_isRegular {scope : String} {horizontal vertical : SourcedSpec}
    {outputs : List Nat} {level : Nat} {channels : List (Nat × Nat)} {levels : List Level}
    (h : buildLevels d scope horizontal vertical outputs level channels = .ok levels) :
    ∀ l ∈ levels, l.IsRegular := by
  induction channels generalizing level levels with
  | nil =>
    cases h
    simp
  | cons c rest ih =>
    simp only [buildLevels, bind_eq_ok, pure_eq_ok] at h
    obtain ⟨first, hfirst, tail, htail, rfl⟩ := h
    intro l hl
    rcases List.mem_cons.mp hl with rfl | hl
    · exact level_isRegular hfirst
    · exact ih htail l hl

/-- What a successful construction has done. -/
theorem build_eq_ok {scope : String} {inputs outputs : List Nat} {horizontal vertical : String}
    {p : Pyramid d} (h : build d scope inputs outputs horizontal vertical = .ok p) :
    inputs.length = outputs.length ∧ ∃ hor ver levels, SourcedSpec.read horizontal = .ok hor ∧
      SourcedSpec.read vertical = .ok ver ∧
      buildLevels d scope hor ver outputs 0 (inputs.zip outputs) = .ok levels ∧
      p = ⟨scope, levels⟩ := by
  unfold build at h
  split at h
  · cases h
  · next hlength =>
    simp only [bind_eq_ok, pure_eq_ok] at h
    obtain ⟨hor, hhor, ver, hver, levels, hlevels, rfl⟩ := h
    exact ⟨by simpa using hlength, hor, ver, levels, hhor, hver, hlevels, rfl⟩

theorem build_isRegular {scope : String} {inputs outputs : List Nat} {horizontal vertical : String}
    {p : Pyramid d} (h : build d scope inputs outputs horizontal vertical = .ok p) :
    p.IsRegular := by
  obtain ⟨-, _, _, _, -, -, hlevels, rfl⟩ := build_eq_ok h
  exact buildLevels_isRegular hlevels

/-- As long as all extents on the way are exact, the shapes of whatever a built encoder or decoder
makes of some batches are those it infers from their shapes, level by level, and the encoder leaves
the same table on both ways. -/
theorem infers_of_passes :
    (∀ {scope : String} {inputs outputs : List Nat} {horizontal vertical : String} {p : Encoder},
      build .fineToCoarse scope inputs outputs horizontal vertical = .ok p →
      ∀ (values : List (Option (Tensor Float32))) (table : ShapeTable)
        (results : List (Option (Tensor Float32))) (left : ShapeTable),
      (∀ a ∈ p.encoderApplications (shapesOf values), a.IsExact) →
      p.encode values table = (.ok results, left) →
      p.encode (shapesOf values) table = (.ok (shapesOf results), left)) ∧
    (∀ {scope : String} {inputs outputs : List Nat} {horizontal vertical : String} {p : Decoder},
      build .coarseToFine scope inputs outputs horizontal vertical = .ok p →
      ∀ (values : List (Option (Tensor Float32))) (table : ShapeTable)
        (results : List (Option (Tensor Float32))),
      (∀ a ∈ p.decoderApplications (shapesOf values) table, a.IsExact) →
      p.decode values table = .ok results →
      p.decode (shapesOf values) table = .ok (shapesOf results)) := by
  constructor
  · intro _ _ _ _ _ p hbuild values table results left exact hpass
    exact ((encode_shape (build_isRegular hbuild) exact _).mp ⟨results, hpass, rfl⟩).1
  · intro _ _ _ _ _ p hbuild values table results exact hpass
    exact ((decode_shape (build_isRegular hbuild) exact _).mp ⟨results, hpass, rfl⟩).1

/-- Two levels over three rows and five columns, down, and up again from the coarsest one. -/
theorem infers_of_passes_odd : ∃ (encoder : Encoder) (decoder : Decoder)
    (encoded decoded : List (Option (Tensor Float32))) (left : ShapeTable),
    build .fineToCoarse "encoder" [1, 0] [1, 2] "conv(1)-conv(1)" "sconv(1)-conv(1)"
      = .ok encoder ∧
    encoder.encode [some ⟨1, 1, 3, 5⟩, none] Keyed.empty = (.ok (shapesOf encoded), left) ∧
    build .coarseToFine "decoder" [1, 2] [1, 2] "conv(1)-conv(1)" "up(nearest)-conv(1)-conv(1)"
      = .ok decoder ∧
    decoder.decode [none, some ⟨1, 2, 2, 3⟩] (Keyed.empty.insert 0 ⟨1, 1, 3, 5⟩)
      = .ok (shapesOf decoded) := by
  obtain ⟨encoder, hbuild, hrun⟩ := exists_eq_ok_of_map (show
      (build .fineToCoarse "encoder" [1, 0] [1, 2] "conv(1)-conv(1)"
        "sconv(1)-conv(1)").toOption.map
      (fun (p : Encoder) =>
        ((p.encode [some (Tensor.replicate ⟨1, 1, 3, 5⟩ (Scalar.one : Float32)), none]
          Keyed.empty).1.isOk,
        decide (∀ a ∈ p.encoderApplications [some ⟨1, 1, 3, 5⟩, none], a.IsExact)))
      = some (true, true) by decide +kernel)
  obtain ⟨decoder, hbuild', hrun'⟩ := exists_eq_ok_of_map (show
      (build .coarseToFine "decoder" [1, 2] [1, 2] "conv(1)-conv(1)"
        "up(nearest)-conv(1)-conv(1)").toOption.map
      (fun (p : Decoder) =>
        ((p.decode [none, some (Tensor.replicate ⟨1, 2, 2, 3⟩ (Scalar.one : Float32))]
          (Keyed.empty.insert 0 ⟨1, 1, 3, 5⟩)).isOk,
        decide (∀ a ∈ p.decoderApplications [none, some ⟨1, 2, 2, 3⟩]
          (Keyed.empty.insert 0 ⟨1, 1, 3, 5⟩), a.IsExact)))
      = some (true, true) by decide +kernel)
  simp only [Prod.mk.injEq, decide_eq_true_eq] at hrun hrun'
  obtain ⟨encoded, hencode⟩ := exists_eq_ok_of_isOk hrun.1
  obtain ⟨decoded, hdecode⟩ := exists_eq_ok_of_isOk hrun'.1
  exact ⟨encoder, decoder, encoded, decoded, _, hbuild,
    infers_of_passes.1 hbuild [some (.replicate ⟨1, 1, 3, 5⟩ Scalar.one), none] _ encoded _ hrun.2
      (Prod.ext hencode rfl), hbuild',
    infers_of_passes.2 hbuild' [none, some (.replicate ⟨1, 2, 2, 3⟩ Scalar.one)] _ decoded hrun'.2
      hdecode⟩

end Pyramid

end Midframe
