import Midframe.Parameter.Store
import Midframe.Proofs.ByteOrder
import Midframe.Proofs.Json.Texts
import Midframe.Proofs.Keyed

/-!
# Parameter stores as texts

The text of a store holds all of its names, extents and values, whatever characters the names are
made of. Only values that are no finite numbers are lost: they are written as null, and a text with
one of them cannot be read. Any other text is read back to the store that it was written for. If its
arrays fill their extents, it is taken; if not, the first one by name that does not is reported.
-/

namespace Midframe

section Lists

variable {α β γ : Type} {f : α → β} {g : β → Option γ}

theorem mapM_map_eq_some {h : α → γ} {l : List α} (hg : ∀ a ∈ l, g (f a) = some (h a)) :
    (l.map f).mapM g = some (l.map h) := by
  induction l with
  | nil => rfl
  | cons a l ih =>
    obtain ⟨ha, hl⟩ := List.forall_mem_cons.mp hg
    rw [List.map_cons, List.mapM_cons, ha, ih hl]
    rfl

theorem mapM_map_eq_none {a : α} {l : List α} (ha : a ∈ l) (hg : g (f a) = none) :
    (l.map f).mapM g = none := by
  induction l with
  | nil => cases ha
  | cons b l ih =>
    rw [List.map_cons, List.mapM_cons]
    rcases List.mem_cons.mp ha with rfl | ha
    · rw [hg]
      rfl
    · rw [ih ha]
      cases g (f b) <;> rfl

end Lists

/-! ## Values -/

namespace Json

/-- A value that is no finite number is written as null. -/
theorem ofSample_of_not_finite {v : Float32} (h : v.isFinite = false) : ofSample v = null := by
  have hunpack : v.toModel.unpack.isFinite = false := h
  unfold ofSample Layout.text32
  cases hv : v.toModel.unpack with
  | notANumber => rfl
  | infinity s => cases s <;> rfl
  | zero s =>
    rw [hv] at hunpack
    cases hunpack
  | finite s m e pos =>
    rw [hv] at hunpack
    cases hunpack

theorem isWritable_ofSample (v : Float32) : (ofSample v).IsWritable := by
  unfold ofSample
  cases hread : Numeral.read (Layout.data.text32 v).toList with
  | none => trivial
  | some p => exact Numeral.isProper_of_read hread

theorem isWritable_ofNats (ns : List Nat) : (ofNats ns).IsWritable := by
  refine areWritable_iff.mpr fun item hitem => ?_
  obtain ⟨n, -, rfl⟩ := List.mem_map.mp hitem
  exact Numeral.isProper_ofNat n

theorem members?_ofMembers (members : List (String × Json)) :
    (ofMembers members).members? = some members := by
  have h := mapM_map_eq_some (l := members) (f := fun m => (Quoted.ofString m.1, m.2))
    (g := fun m : Quoted × Json => m.1.decode?.map (·, m.2)) (h := id) fun m _ => by
      rw [Quoted.decode?_ofString]
      rfl
  rwa [List.map_id] at h

theorem counts_ofNats {ns : List Nat} (h : ∀ n ∈ ns, n ≤ maxCount) :
    (ofNats ns).list? count? = some ns := by
  have hcounts := mapM_map_eq_some (f := ofNat) (g := count?) (h := id) fun n hn =>
    Numeral.count?_ofNat (h n hn)
  rwa [List.map_id] at hcounts

end Json

/-! ## Arrays -/

namespace ParameterArray

variable {a : ParameterArray}

theorem isWritable_toJson (a : ParameterArray) : a.toJson.IsWritable := by
  refine Json.isWritable_ofMembers.mpr ?_
  rw [List.forall_mem_cons, List.forall_mem_singleton]
  refine ⟨Json.isWritable_ofNats a.shape, Json.areWritable_iff.mpr fun item hitem => ?_⟩
  obtain ⟨v, -, rfl⟩ := List.mem_map.mp hitem
  exact Json.isWritable_ofSample v

/-- The fields of an array that was written are those that it is read from. -/
theorem record?_toJson (a : ParameterArray) :
    a.toJson.record? .refused ["shape", "data"] = some [some (.ofNats a.shape),
      some (.array (a.data.toList.map Json.ofSample))] := by
  have hmembers := Json.members?_ofMembers
    [("shape", .ofNats a.shape), ("data", .array (a.data.toList.map Json.ofSample))]
  unfold toJson
  unfold Json.ofMembers at hmembers ⊢
  rw [Json.record?, hmembers]
  rfl

theorem ofJson?_toJson (a : ParameterArray) : ofJson? a.toJson =
    ((Json.ofNats a.shape).list? Json.count?).bind fun shape =>
      ((a.data.toList.map Json.ofSample).mapM Json.sample?).map fun data =>
        ⟨shape, data.toArray⟩ := by
  unfold ofJson?
  rw [record?_toJson]
  simp only [Option.bind_eq_bind, Option.bind_some, Json.required?]
  refine congrArg (Option.bind _) (funext fun shape => ?_)
  show ((a.data.toList.map Json.ofSample).mapM Json.sample?).bind _ = _
  cases (a.data.toList.map Json.ofSample).mapM Json.sample? <;> rfl

/-- An array of machine words and of finite values that are read as they are written. -/
theorem ofJson?_toJson_of_finite (extents : ∀ n ∈ a.shape, n ≤ maxCount)
    (reads : ∀ v ∈ a.data, (Json.ofSample v).sample? = some v) : ofJson? a.toJson = some a := by
  have hdata := mapM_map_eq_some (l := a.data.toList) (f := Json.ofSample) (g := Json.sample?)
    (h := id) fun v hv => reads v (Array.mem_toList_iff.mp hv)
  rw [ofJson?_toJson, Json.counts_ofNats extents, hdata, List.map_id]
  rfl

/-- An array with a value that is no finite number cannot be read. -/
theorem ofJson?_toJson_of_not_finite {v : Float32} (hv : v ∈ a.data) (h : v.isFinite = false) :
    ofJson? a.toJson = none := by
  have hdata : (a.data.toList.map Json.ofSample).mapM Json.sample? = none :=
    mapM_map_eq_none (Array.mem_toList_iff.mpr hv) (by rw [Json.ofSample_of_not_finite h]; rfl)
  rw [ofJson?_toJson, hdata]
  cases (Json.ofNats a.shape).list? Json.count? <;> rfl

end ParameterArray

/-! ## Stores -/

namespace Store

variable {s : Store}

theorem read?_text (s : Store) : Json.read? s.text = some s.toJson := by
  refine Json.read?_compact (Json.isWritable_ofMembers.mpr fun m hm => ?_)
  obtain ⟨e, -, rfl⟩ := List.mem_map.mp hm
  exact e.2.isWritable_toJson

/-- An array as a member of a file. -/
def readMember? (m : String × Json) : Option (String × ParameterArray) :=
  (ParameterArray.ofJson? m.2).map (m.1, ·)

/-- A store that was written is read member by member. -/
theorem ofJson?_toJson (s : Store) : ofJson? s.toJson =
    ((s.entries.map fun e => (e.1, e.2.toJson)).mapM readMember?).map Keyed.ofList := by
  unfold ofJson? toJson
  rw [Json.members?_ofMembers]
  show ((s.entries.map fun e => (e.1, e.2.toJson)).mapM readMember?).bind _ = _
  cases (s.entries.map fun e => (e.1, e.2.toJson)).mapM readMember? <;> rfl

/-- The entries of a store are all that it holds. -/
theorem ofList_entries (s : Store) : Keyed.ofList s.entries = s :=
  Keyed.eq_of_entries_perm (Keyed.ofList_perm s.keys_nodup)

/-- A name is the first one, in byte order, of an array whose values do not fill its extents. -/
structure IsFirstMisfilled (s : Store) (name : String) (a : ParameterArray) : Prop where
  /-- The store holds the array under the name. -/
  held : (name, a) ∈ s.entries
  /-- Its values do not fill its extents. -/
  misfilled : a.expected ≠ a.data.size
  /-- Any other such array has a larger name. -/
  least : ∀ other ∈ s.entries, other.2.expected ≠ other.2.data.size → other.1 ≠ name →
    textBytes name < textBytes other.1

theorem check_of_filled (h : ∀ e ∈ s.entries, e.2.expected = e.2.data.size) :
    check s = .ok s := by
  have hfind : (s.entries.find? fun e => !e.2.isFilled) = none := by
    refine List.find?_eq_none.mpr fun e he => ?_
    simp [ParameterArray.isFilled, h e he]
  rw [check, hfind]

theorem check_of_misfilled (h : ∃ e ∈ s.entries, e.2.expected ≠ e.2.data.size) :
    ∃ name a, s.IsFirstMisfilled name a ∧
      check s = .error (.parameter (.storedSize name a.shape a.expected a.data.size)) := by
  obtain ⟨e, he, hmisfilled⟩ := h
  cases hfind : s.entries.find? fun e => !e.2.isFilled with
  | none =>
    have hall := List.find?_eq_none.mp hfind e he
    simp [ParameterArray.isFilled, hmisfilled] at hall
  | some first =>
    obtain ⟨name, a⟩ := first
    obtain ⟨hfirst, before, rest, hentries, hbefore⟩ := List.find?_eq_some_iff_append.mp hfind
    refine ⟨name, a, ⟨List.mem_of_find?_eq_some hfind,
      by simpa [ParameterArray.isFilled] using hfirst, ?_⟩, by rw [check, hfind]⟩
    intro other hother hother' hne
    -- The arrays in front of the first one are filled, and those behind it have larger names.
    have hordered := s.ordered
    rw [hentries] at hother hordered
    rcases List.mem_append.mp hother with hmem | hmem
    · have hfilled := hbefore other hmem
      simp [ParameterArray.isFilled, hother'] at hfilled
    · rcases List.mem_cons.mp hmem with rfl | hmem
      · exact absurd rfl hne
      · have htail := (List.pairwise_append.mp hordered).2.1
        exact textBytes_lt_of_compare ((List.pairwise_cons.mp htail).1 other hmem)

/-- What becomes of the text of a store whose extents are machine words, provided that its finite
values are read as they are written: if a value is no finite number, the text cannot be read; if
all are but some arrays do not have as many values as their extents ask for, the first of these is
reported; otherwise the store comes back as it was. -/
theorem ofText_text (s : Store) (extents : ∀ e ∈ s.entries, ∀ n ∈ e.2.shape, n ≤ maxCount)
    (reads : ∀ e ∈ s.entries, ∀ v ∈ e.2.data, v.isFinite = true →
      (Json.ofSample v).sample? = some v) :
    ((∃ e ∈ s.entries, ∃ v ∈ e.2.data, v.isFinite = false) →
      ofText s.text = .error (.unreadable .parameters)) ∧
    ((∀ e ∈ s.entries, ∀ v ∈ e.2.data, v.isFinite = true) →
      ((∃ e ∈ s.entries, e.2.expected ≠ e.2.data.size) → ∃ name a, s.IsFirstMisfilled name a ∧
        ofText s.text
          = .error (.parameter (.storedSize name a.shape a.expected a.data.size))) ∧
      ((∀ e ∈ s.entries, e.2.expected = e.2.data.size) → ofText s.text = .ok s)) := by
  unfold ofText
  rw [read?_text, Option.bind_some, ofJson?_toJson]
  constructor
  · rintro ⟨e, he, v, hv, hinfinite⟩
    have hnone : readMember? (e.1, e.2.toJson) = none := by
      rw [readMember?, ParameterArray.ofJson?_toJson_of_not_finite hv hinfinite, Option.map_none]
    rw [mapM_map_eq_none he hnone]
    rfl
  · intro finite
    have hread := mapM_map_eq_some (l := s.entries) (f := fun e => (e.1, e.2.toJson))
      (g := readMember?) (h := id) fun e he => by
        rw [readMember?, ParameterArray.ofJson?_toJson_of_finite (extents e he) fun v hv =>
          reads e he v hv (finite e he v hv)]
        rfl
    rw [hread, List.map_id, Option.map_some, ofList_entries]
    exact ⟨check_of_misfilled, check_of_filled⟩

/-- A negative zero without a name, two small values under a name that needs escapes, and one more
array. -/
def escapedStore (last : ParameterArray) : Store :=
  Keyed.ofList [("\"\\\n\x01é", ⟨[2, 1], #[0.1, 1e-45]⟩), ("", ⟨[], #[-0.0]⟩), ("z", last)]

/-- The last array is filled, lacks a value, or holds an infinite one. -/
theorem ofText_text_escaped :
    ofText (escapedStore ⟨[1], #[1]⟩).text = .ok (escapedStore ⟨[1], #[1]⟩) ∧
    (∃ name a, (escapedStore ⟨[2], #[1]⟩).IsFirstMisfilled name a ∧
      ofText (escapedStore ⟨[2], #[1]⟩).text
        = .error (.parameter (.storedSize name a.shape a.expected a.data.size))) ∧
    ofText (escapedStore ⟨[1], #[1 / 0]⟩).text = .error (.unreadable .parameters) := by
  refine ⟨?_, ?_, ?_⟩
  · exact ((ofText_text (escapedStore ⟨[1], #[1]⟩) (by decide +kernel) (by decide +kernel)).2
      (by decide +kernel)).2 (by decide +kernel)
  · exact ((ofText_text (escapedStore ⟨[2], #[1]⟩) (by decide +kernel) (by decide +kernel)).2
      (by decide +kernel)).1 (by decide +kernel)
  · exact (ofText_text (escapedStore ⟨[1], #[1 / 0]⟩) (by decide +kernel) (by decide +kernel)).1
      (by decide +kernel)

end Store

end Midframe
