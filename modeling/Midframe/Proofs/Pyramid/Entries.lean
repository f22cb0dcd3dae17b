import Mathlib.Data.Option.Basic
import Midframe.Proofs.Block.Entries
import Midframe.Proofs.Keyed
import Midframe.Proofs.Pyramid.Inference

/-!
# Pyramids entry by entry

A pass through a pyramid treats the entries of a batch one by one. The pass over an entry of every
input reaches the same levels with the entries of what the pass over the batches leaves there. The
shapes that it records differ in the number of entries alone, which no level looks at.
-/

namespace Midframe

/-- Where the first table has a shape, the second one has it with one entry. -/
def ShapeTable.IsEntry (table table' : ShapeTable) : Prop :=
  ∀ level, table'.get? level = (table.get? level).map fun s => { s with batch := 1 }

/-- Optional batches and entries of them. -/
abbrev EntryOf (n b : Nat) : Option (Tensor Float32) → Option (Tensor Float32) → Prop :=
  Option.Rel (Tensor.IsEntry n b)

variable {n b : Nat} (hb : b < n)

/-! ## Levels -/

namespace Level

variable {x x' : Tensor Float32} {v v' : Option (Tensor Float32)}

include hb in
theorem ownValue_entry (l : Level) (h : EntryOf n b v v') :
    Corresponds (EntryOf n b) (l.ownValue v) (l.ownValue v') := by
  unfold ownValue
  cases l.horizontal with
  | none => exact .ok h
  | some block =>
    cases h with
    | none => exact .ok .none
    | some h => exact (block.forward_entry hb h).map fun _ _ => .some

include hb in
theorem contribution_entry (l : Level) (scope : String) (level neighbour : Nat)
    (h : EntryOf n b v v') :
    Corresponds (EntryOf n b) (l.contribution scope level neighbour v)
      (l.contribution scope level neighbour v') := by
  unfold contribution
  cases l.vertical with
  | none => exact .ok .none
  | some block =>
    cases h with
    | none => exact .error _ _
    | some h => exact (block.forward_entry hb h).map fun _ _ => .some

include hb in
theorem combine_entry (h : EntryOf n b v v') (hx : x.IsEntry n b x') :
    Corresponds (EntryOf n b) (some <$> combine v x) (some <$> combine v' x') := by
  refine Corresponds.map ?_ fun _ _ => .some
  cases h with
  | none => exact .ok hx
  | some h => exact h.add hb hx

include hb in
theorem reconcile_entry (level : Nat) (hx : x.IsEntry n b x') (expected : Shape) :
    Corresponds (Tensor.IsEntry n b) (reconcile level x expected)
      (reconcile level x' { expected with batch := 1 }) := by
  have hfits : fits x'.shape { expected with batch := 1 } = fits x.shape expected := by
    unfold fits
    rw [hx.height, hx.width]
  simp only [reconcile, Flow.shape, hfits, hx.height, hx.width]
  rcases fits x.shape expected with _ | _ | _
  · exact .error _ _
  · exact .error _ _
  · show Corresponds _ (if _ then _ else _) (if _ then _ else _)
    split
    · exact .ok hx
    · exact hx.crop hb _ _

include hb in
theorem fitted_entry {table table' : ShapeTable} (htable : table.IsEntry table') (level : Nat)
    (h : EntryOf n b v v') (hx : x.IsEntry n b x') :
    Corresponds (EntryOf n b) (fitted table level v x) (fitted table' level v' x') := by
  unfold fitted
  rw [htable level]
  cases table.get? level with
  | none => exact .error _ _
  | some expected =>
    exact (reconcile_entry hb level hx expected).bind fun _ _ => combine_entry hb h

include hb in
theorem joined_entry (l : Level) (scope : String) (level neighbour : Nat)
    {fit fit' : Option (Tensor Float32) → Tensor Float32 → Except Fault (Option (Tensor Float32))}
    (hfit : ∀ {v v' x x'}, EntryOf n b v v' → Tensor.IsEntry n b x x' →
      Corresponds (EntryOf n b) (fit v x) (fit' v' x'))
    {input input' source source' : Option (Tensor Float32)} (hinput : EntryOf n b input input')
    (hsource : EntryOf n b source source') :
    Corresponds (EntryOf n b) (l.joined scope level neighbour fit input source)
      (l.joined scope level neighbour fit' input' source') := by
  unfold joined
  refine (l.ownValue_entry hb hinput).bind fun v v' hv => ?_
  refine (l.contribution_entry hb scope level neighbour hsource).bind fun c c' hc => ?_
  cases hc with
  | none => exact .ok hv
  | some hc => exact hfit hv hc

end Level

/-! ## Passes -/

namespace Pyramid

variable {table table' : ShapeTable} {inputs inputs' : List (Option (Tensor Float32))}

theorem recorded_entry (htable : table.IsEntry table') (level : Nat)
    {v v' : Option (Tensor Float32)} (h : EntryOf n b v v') :
    (recorded table level (v.map Tensor.shape)).IsEntry
      (recorded table' level (v'.map Tensor.shape)) := by
  cases h with
  | none => exact htable
  | @some x x' h =>
    intro other
    simp only [recorded, Option.map_some, Keyed.get?_insert, htable other, h.shape]
    split <;> rfl

include hb in
/-- What is left of an encoder, from one level on. -/
theorem encodeLevels_entry (scope : String) (level : Nat) {below below' : Option (Tensor Float32)}
    (hbelow : EntryOf n b below below') (htable : table.IsEntry table') (levels : List Level)
    (hinputs : List.Forall₂ (EntryOf n b) inputs inputs') :
    Corresponds (List.Forall₂ (EntryOf n b))
        (encodeLevels scope level below table (levels.zip inputs)).1
        (encodeLevels scope level below' table' (levels.zip inputs')).1 ∧
      (encodeLevels scope level below table (levels.zip inputs)).2.IsEntry
        (encodeLevels scope level below' table' (levels.zip inputs')).2 := by
  induction hinputs generalizing levels level below below' table table' with
  | nil =>
    rw [List.zip_nil_right]
    exact ⟨.ok .nil, htable⟩
  | @cons input input' inputs inputs' hinput _ ih =>
    cases levels with
    | nil => exact ⟨.ok .nil, htable⟩
    | cons l levels =>
      rw [List.zip_cons_cons, List.zip_cons_cons]
      have hencode : Corresponds (EntryOf n b) (l.encode scope level input below)
          (l.encode scope level input' below') :=
        l.joined_entry hb scope level (level - 1) (Level.combine_entry hb) hinput hbelow
      cases hr : l.encode scope level input below with
      | error e =>
        obtain ⟨e', hr'⟩ := (hr ▸ hencode).exists_of_error
        simp only [encodeLevels, hr, hr']
        exact ⟨.error e e', htable⟩
      | ok v =>
        obtain ⟨v', hr', hv⟩ := (hr ▸ hencode).exists_of_ok
        obtain ⟨hrest, hleft⟩ := ih (level + 1) hv (recorded_entry htable level hv) levels
        rw [encodeLevels_of_ok hr, encodeLevels_of_ok hr']
        exact ⟨hrest.map fun _ _ => .cons hv, hleft⟩

include hb in
theorem decodeLevels_entry (scope : String) (htable : table.IsEntry table') (level : Nat)
    (levels : List Level) (hinputs : List.Forall₂ (EntryOf n b) inputs inputs') :
    Corresponds (List.Forall₂ (EntryOf n b))
      (decodeLevels scope table level (levels.zip inputs))
      (decodeLevels scope table' level (levels.zip inputs')) := by
  induction hinputs generalizing levels level with
  | nil =>
    rw [List.zip_nil_right]
    exact .ok .nil
  | @cons input input' inputs inputs' hinput _ ih =>
    cases levels with
    | nil => exact .ok .nil
    | cons l levels =>
      simp only [List.zip_cons_cons, decodeLevels]
      refine (ih (level + 1) levels).bind fun values values' hvalues => ?_
      have habove : EntryOf n b values.head?.join values'.head?.join := by
        cases hvalues with
        | nil => exact .none
        | cons h _ => exact h
      have hdecode : Corresponds (EntryOf n b) (l.decode scope table level input _)
          (l.decode scope table' level input' _) :=
        l.joined_entry hb scope level (level + 1) (Level.fitted_entry hb htable level) hinput habove
      exact hdecode.bind fun v v' hv => .ok (.cons hv hvalues)

theorem checkInputs_entry {d : Direction} (p : Pyramid d)
    (hinputs : List.Forall₂ (EntryOf n b) inputs inputs') :
    p.checkInputs inputs' = p.checkInputs inputs := by
  simp only [checkInputs, hinputs.length_eq]

include hb in
/-- The pass of an encoder over batches and over their entries. -/
theorem encode_entry (p : Encoder) (htable : table.IsEntry table')
    (hinputs : List.Forall₂ (EntryOf n b) inputs inputs') :
    Corresponds (List.Forall₂ (EntryOf n b)) (encode p inputs table).1 (encode p inputs' table').1 ∧
      (encode p inputs table).2.IsEntry (encode p inputs' table').2 := by
  unfold encode
  rw [p.checkInputs_entry hinputs]
  cases p.checkInputs inputs with
  | error e => exact ⟨.error e e, htable⟩
  | ok _ => exact encodeLevels_entry hb p.scope 0 .none htable p.levels hinputs

include hb in
/-- The pass of a decoder over batches and over their entries. -/
theorem decode_entry (p : Decoder) (htable : table.IsEntry table')
    (hinputs : List.Forall₂ (EntryOf n b) inputs inputs') :
    Corresponds (List.Forall₂ (EntryOf n b)) (decode p inputs table) (decode p inputs' table') := by
  unfold decode
  rw [p.checkInputs_entry hinputs]
  cases p.checkInputs inputs with
  | error e => exact .error e e
  | ok _ => exact decodeLevels_entry hb p.scope htable 0 p.levels hinputs

end Pyramid

end Midframe
