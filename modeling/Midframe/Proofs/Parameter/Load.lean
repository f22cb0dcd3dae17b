import Midframe.Proofs.ByteOrder
import Midframe.Proofs.Parameter.Export
import Midframe.Proofs.Parameter.Parts

/-!
# Loads

A load goes through the arrays as a traversal hands them over. Every array takes the values that the
store holds for its name, up to the first one that the store does not fit. If the store fits all of
them, it still may hold other names; since no two arrays have the same name, it does so exactly if
it holds more arrays than the network has.
-/

namespace Midframe

/-! ## One array -/

namespace Store

/-- A store holds an array of the same name, with the same extents and as many values. -/
def Fits (store : Store) (a : NamedArray) : Prop :=
  ∃ stored, store.get? a.1 = some stored ∧ stored.shape = a.2.shape ∧
    stored.data.size = a.2.data.size

/-- What is wrong if a store does not fit an array. -/
inductive Refuses (store : Store) (a : NamedArray) : ParameterFlaw → Prop
  /-- Nothing has the name. -/
  | missing (h : store.get? a.1 = none) : Refuses store a (.missing a.1)
  /-- What has the name differs in its extents or in the number of its values. -/
  | misshapen {stored : ParameterArray} (h : store.get? a.1 = some stored)
      (hdiffers : stored.shape ≠ a.2.shape ∨ stored.data.size ≠ a.2.data.size) :
      Refuses store a (.misshapen a.1 a.2.shape stored.shape)

/-- An array as a store holds it; one that it does not hold stays as it is. -/
def held (store : Store) (a : NamedArray) : NamedArray := (a.1, (store.get? a.1).getD a.2)

/-- The first name in a store that is not known. -/
def firstUnknown (store : Store) (known : List String) : String :=
  (store.keys.find? fun name => !known.contains name).getD ""

theorem Fits.mem_keys {store : Store} {a : NamedArray} (h : store.Fits a) : a.1 ∈ store.keys := by
  obtain ⟨stored, hget, -⟩ := h
  exact List.mem_map.mpr ⟨_, Keyed.mem_of_get? hget, rfl⟩

end Store

/-! ## The run of a load -/

namespace Visit

variable {f : Slot → {n : Nat} → Vector Float32 n → Except Fault (Vector Float32 n)}

/-- An array that is accepted takes its values. -/
theorem run_untilFault_ok {a : NamedArray} {values : Vector Float32 a.2.data.size}
    (h : f ⟨a.1, a.2.shape⟩ ⟨a.2.data, rfl⟩ = .ok values) :
    ((untilFault f).onArray a).run none = ((a.1, ⟨a.2.shape, values.toArray⟩), none) := by
  simp only [onArray, untilFault, h]
  rfl

/-- One that is not stays as it is. -/
theorem run_untilFault_error {a : NamedArray} {e : Fault}
    (h : f ⟨a.1, a.2.shape⟩ (⟨a.2.data, rfl⟩ : Vector Float32 a.2.data.size) = .error e) :
    ((untilFault f).onArray a).run none = (a, some e) := by
  simp only [onArray, untilFault, h]
  rfl

/-- Behind a fault nothing changes. -/
theorem run_untilFault_some (arrays : List NamedArray) (e : Fault) :
    (arrays.mapM (untilFault f).onArray).run (some e) = (arrays, some e) := by
  induction arrays with
  | nil => rfl
  | cons a rest ih => exact run_mapM_cons rfl ih

end Visit

namespace Store

variable (store : Store)

/-- The visitor of a load. -/
abbrev visitor : Visit (StateM (Option Fault)) := Visit.untilFault (Network.storedValues store)

/-- One array takes what the store holds, or it stays and the flaw is kept. -/
theorem run_visitor (a : NamedArray) :
    (store.Fits a ∧ (store.visitor.onArray a).run none = (store.held a, none)) ∨
      ∃ flaw, store.Refuses a flaw ∧
        (store.visitor.onArray a).run none = (a, some (.parameter flaw)) := by
  cases hget : store.get? a.1 with
  | none =>
    refine .inr ⟨_, .missing hget, Visit.run_untilFault_error ?_⟩
    simp [Network.storedValues, hget]
  | some stored =>
    by_cases hshape : stored.shape = a.2.shape
    · by_cases hsize : stored.data.size = a.2.data.size
      · refine .inl ⟨⟨stored, hget, hshape, hsize⟩, ?_⟩
        have hvalues : Network.storedValues store ⟨a.1, a.2.shape⟩
            (⟨a.2.data, rfl⟩ : Vector Float32 a.2.data.size) = .ok ⟨stored.data, hsize⟩ := by
          simp [Network.storedValues, hget, hshape, hsize]
        rw [Visit.run_untilFault_ok hvalues, held, hget, ← hshape]
        rfl
      · refine .inr ⟨_, .misshapen hget (.inr hsize), Visit.run_untilFault_error ?_⟩
        simp [Network.storedValues, hget, hshape, hsize]
    · refine .inr ⟨_, .misshapen hget (.inl hshape), Visit.run_untilFault_error ?_⟩
      simp [Network.storedValues, hget, hshape]

/-- A load comes to its end if the store fits all arrays. Otherwise it stops at the first one that
the store does not fit: those before it hold what the store holds, this one and all later ones are
as they were. -/
theorem run_visitor_mapM (arrays : List NamedArray) :
    ((∀ a ∈ arrays, store.Fits a) ∧
        (arrays.mapM store.visitor.onArray).run none = (arrays.map store.held, none)) ∨
      ∃ before a rest flaw, arrays = before ++ a :: rest ∧ (∀ b ∈ before, store.Fits b) ∧
        store.Refuses a flaw ∧
        (arrays.mapM store.visitor.onArray).run none
          = (before.map store.held ++ a :: rest, some (.parameter flaw)) := by
  induction arrays with
  | nil => exact .inl ⟨nofun, rfl⟩
  | cons a rest ih =>
    -- A fault at the first array ends the run; without one, the rest starts where the run did.
    rcases store.run_visitor a with ⟨hfits, hfirst⟩ | ⟨flaw, hrefuses, hfirst⟩
    · rcases ih with ⟨hrest, hrun⟩ | ⟨before, b, later, flaw, rfl, hbefore, hrefuses, hrun⟩
      · exact .inl ⟨List.forall_mem_cons.mpr ⟨hfits, hrest⟩, run_mapM_cons hfirst hrun⟩
      · exact .inr ⟨a :: before, b, later, flaw, rfl,
          List.forall_mem_cons.mpr ⟨hfits, hbefore⟩, hrefuses, run_mapM_cons hfirst hrun⟩
    · have hrun := run_mapM_cons hfirst (Visit.run_untilFault_some rest _)
      exact .inr ⟨[], a, rest, flaw, rfl, nofun, hrefuses, hrun⟩

end Store

/-! ## The load of a network -/

namespace Network

variable {net net' : Network} {store : Store}

theorem load_reset (net : Network) (store : Store) : (net.load store).1.reset = net.reset := by
  rw [load_fst, visit_reset]

theorem inventory_load (net : Network) (store : Store) :
    (net.load store).1.inventory = net.inventory := by
  rw [← inventory_reset, load_reset, inventory_reset]

theorem load_of_fault {e : Fault} (h : (net.visit store.visitor).run none = (net', some e)) :
    net.load store = (net', .error e) := by
  unfold load
  rw [h]

/-- Behind the last array the numbers of arrays are compared. -/
theorem load_of_none (h : (net.visit store.visitor).run none = (net', none)) :
    net.load store = (net',
      if store.size = net.arrays.length then .ok ()
      else .error (.parameter (.unknown store.size net.arrays.length
        (store.firstUnknown (net.arrays.map Prod.fst))))) := by
  have hload : (net.load store).1 = net' := by rw [load_fst, h]
  have hnames : net'.inventory.map Prod.fst = net.arrays.map Prod.fst := by
    rw [← hload, inventory_load, inventory_names]
  unfold load
  rw [h]
  simp only [hnames, List.length_map, beq_iff_eq]
  split <;> rfl

/-- A load either comes to the end of the arrays, or it stops at the first one that the store does
not fit. -/
theorem load_cases (net : Network) (store : Store) :
    ((∀ a ∈ net.arrays, store.Fits a) ∧
        (net.load store).1.arrays = net.arrays.map store.held ∧
        (net.load store).2 =
          if store.size = net.arrays.length then .ok ()
          else .error (.parameter (.unknown store.size net.arrays.length
            (store.firstUnknown (net.arrays.map Prod.fst))))) ∨
      ∃ before a rest flaw, net.arrays = before ++ a :: rest ∧ (∀ b ∈ before, store.Fits b) ∧
        store.Refuses a flaw ∧ (net.load store).1.arrays = before.map store.held ++ a :: rest ∧
        (net.load store).2 = .error (.parameter flaw) := by
  obtain ⟨hview, hfault⟩ := (net.visit_gathers store.visitor).run_state none
  have harrays := congrArg Prod.snd hview
  cases hvisit : (net.visit store.visitor).run none with
  | mk net' fault =>
    rw [hvisit] at harrays hfault
    rcases store.run_visitor_mapM net.arrays with
      ⟨hfits, hrun⟩ | ⟨before, a, rest, flaw, hsplit, hbefore, hrefuses, hrun⟩
    · replace hfault : fault = none := hfault.trans (congrArg Prod.snd hrun)
      replace harrays : net'.arrays = net.arrays.map store.held :=
        harrays.trans (congrArg Prod.fst hrun)
      rw [load_of_none (hfault ▸ hvisit)]
      exact .inl ⟨hfits, harrays, rfl⟩
    · replace hfault : fault = some (.parameter flaw) := hfault.trans (congrArg Prod.snd hrun)
      replace harrays : net'.arrays = before.map store.held ++ a :: rest :=
        harrays.trans (congrArg Prod.fst hrun)
      rw [load_of_fault (hfault ▸ hvisit)]
      exact .inr ⟨before, a, rest, flaw, hsplit, hbefore, hrefuses, harrays, rfl⟩

end Network

/-! ## Names that are not known -/

namespace Store

variable {store : Store} {arrays : List NamedArray}

/-- A store that fits arrays of different names has no other names exactly if it holds as many
arrays. -/
theorem size_eq_iff (hnames : (arrays.map Prod.fst).Nodup) (hfits : ∀ a ∈ arrays, store.Fits a) :
    store.size = arrays.length ↔ ∀ name ∈ store.keys, name ∈ arrays.map Prod.fst := by
  have hsubset : arrays.map Prod.fst ⊆ store.keys := by
    intro name hname
    obtain ⟨a, ha, rfl⟩ := List.mem_map.mp hname
    exact (hfits a ha).mem_keys
  have hsubperm := List.subperm_of_subset hnames hsubset
  have hkeys : store.keys.length = store.size := List.length_map _
  constructor
  · intro hsize name hname
    have hle : store.keys.length ≤ (arrays.map Prod.fst).length := by
      rw [hkeys, hsize, List.length_map]
    exact (hsubperm.perm_of_length_le hle).mem_iff.mpr hname
  · intro hknown
    have hperm := hsubperm.antisymm (List.subperm_of_subset store.keys_nodup hknown)
    rw [← hkeys, ← hperm.length_eq, List.length_map]

/-- A name in a store is the first one, in byte order, of those that are not known. -/
structure IsFirstUnknown (store : Store) (known : List String) (name : String) : Prop where
  /-- The store holds it. -/
  held : name ∈ store.keys
  /-- It is not known. -/
  unknown : name ∉ known
  /-- Any other such name is larger. -/
  least : ∀ other ∈ store.keys, other ∉ known → other ≠ name → textBytes name < textBytes other

theorem firstUnknown_spec {known : List String} (h : ∃ name ∈ store.keys, name ∉ known) :
    store.IsFirstUnknown known (store.firstUnknown known) := by
  obtain ⟨name, hname, hunknown⟩ := h
  unfold firstUnknown
  cases hfind : store.keys.find? fun name => !known.contains name with
  | none =>
    have hall := List.find?_eq_none.mp hfind name hname
    simp [hunknown] at hall
  | some first =>
    obtain ⟨hfirst, before, rest, hkeys, hbefore⟩ := List.find?_eq_some_iff_append.mp hfind
    refine ⟨List.mem_of_find?_eq_some hfind, by simpa using hfirst, ?_⟩
    intro other hother hother' hne
    -- The names in front of the first one are known, and those behind it are larger.
    have hordered := store.keys_ordered
    rw [hkeys] at hother hordered
    rcases List.mem_append.mp hother with hmem | hmem
    · have hknown := hbefore other hmem
      simp [hother'] at hknown
    · rcases List.mem_cons.mp hmem with rfl | hmem
      · exact absurd rfl hne
      · have htail := (List.pairwise_append.mp hordered).2.1
        exact textBytes_lt_of_compare ((List.pairwise_cons.mp htail).1 other hmem)

end Store

end Midframe
