/-!
# Keyed entries

A finite map is the list of its entries in strictly ascending key order, so that two maps with the
same entries are equal and the first entry with a property is the one of the smallest key. It serves
for parameters by name and for shapes by level.
-/

namespace Midframe

/-- A finite map from `κ` to `α`. -/
structure Keyed (κ α : Type) [Ord κ] where
  /-- The entries. -/
  entries : List (κ × α)
  /-- They ascend strictly by key. -/
  ordered : entries.Pairwise fun a b => compare a.1 b.1 = .lt

namespace Keyed

variable {κ α β : Type} [Ord κ]

/-- The map without entries. -/
def empty : Keyed κ α := ⟨[], .nil⟩

instance : Inhabited (Keyed κ α) := ⟨empty⟩

/-- The value of a key. -/
def get? (m : Keyed κ α) (key : κ) : Option α :=
  (m.entries.find? fun e => compare key e.1 == .eq).map Prod.snd

/-- Whether a key has a value. -/
def contains (m : Keyed κ α) (key : κ) : Bool := (m.get? key).isSome

/-- The keys, in ascending order. -/
def keys (m : Keyed κ α) : List κ := m.entries.map Prod.fst

/-- The number of entries. -/
def size (m : Keyed κ α) : Nat := m.entries.length

/-- The map without one key. -/
def erase (m : Keyed κ α) (key : κ) : Keyed κ α :=
  ⟨m.entries.filter fun e => compare key e.1 != .eq, m.ordered.sublist List.filter_sublist⟩

/-- The map with a function applied to every value. -/
def mapValues (f : α → β) (m : Keyed κ α) : Keyed κ β :=
  ⟨m.entries.map fun e => (e.1, f e.2), List.pairwise_map.mpr m.ordered⟩

/-- The list of entries with one key set: its entry is replaced, or takes its place in the order. -/
def insertEntry (key : κ) (value : α) : List (κ × α) → List (κ × α)
  | [] => [(key, value)]
  | e :: rest =>
    match compare key e.1 with
    | .lt => (key, value) :: e :: rest
    | .eq => (key, value) :: rest
    | .gt => e :: insertEntry key value rest

/-- Setting one key adds nothing but its entry. -/
theorem mem_insertEntry {key : κ} {value : α} {entries : List (κ × α)} {e : κ × α}
    (h : e ∈ insertEntry key value entries) : e = (key, value) ∨ e ∈ entries := by
  induction entries with
  | nil => exact .inl (by simpa [insertEntry] using h)
  | cons e' rest ih =>
    unfold insertEntry at h
    split at h
    · simpa using h
    · rcases List.mem_cons.mp h with h | h
      · exact .inl h
      · exact .inr (List.mem_cons_of_mem _ h)
    · rcases List.mem_cons.mp h with h | h
      · exact .inr (h ▸ List.mem_cons_self)
      · exact (ih h).imp_right (List.mem_cons_of_mem _)

variable [Std.TransOrd κ] [Std.LawfulEqOrd κ]

/-- Setting one key keeps the order. -/
theorem insertEntry_ordered {key : κ} {value : α} {entries : List (κ × α)}
    (h : entries.Pairwise fun a b => compare a.1 b.1 = .lt) :
    (insertEntry key value entries).Pairwise fun a b => compare a.1 b.1 = .lt := by
  induction entries with
  | nil => simp [insertEntry]
  | cons e rest ih =>
    have ⟨below, tail⟩ := List.pairwise_cons.mp h
    unfold insertEntry
    split
    · next lt =>
      refine List.pairwise_cons.mpr ⟨fun b hb => ?_, h⟩
      rcases List.mem_cons.mp hb with rfl | hb
      · exact lt
      · exact Std.TransCmp.lt_trans lt (below b hb)
    · next eq =>
      refine List.pairwise_cons.mpr ⟨fun b hb => ?_, tail⟩
      rw [Std.LawfulEqOrd.eq_of_compare eq]
      exact below b hb
    · next gt =>
      refine List.pairwise_cons.mpr ⟨fun b hb => ?_, ih tail⟩
      rcases mem_insertEntry hb with rfl | hb
      · exact Std.OrientedCmp.lt_of_gt gt
      · exact below b hb

/-- The map with one key set. -/
def insert (m : Keyed κ α) (key : κ) (value : α) : Keyed κ α :=
  ⟨insertEntry key value m.entries, insertEntry_ordered m.ordered⟩

/-- The map of a list of entries; a later entry of a key replaces an earlier one. -/
def ofList (entries : List (κ × α)) : Keyed κ α :=
  entries.foldl (fun m e => m.insert e.1 e.2) empty

end Keyed

end Midframe
