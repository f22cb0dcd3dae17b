import Midframe.Keyed

/-!
# Keyed entries

An entry of a map is found under its key, and a key behind all others takes the last place. A map
is determined by its entries in any order, and keeps all entries of a list without repeated keys.
-/

namespace Midframe

namespace Keyed

variable {κ α : Type} [Ord κ]

instance [DecidableEq κ] [DecidableEq α] : DecidableEq (Keyed κ α) := fun m m' =>
  decidable_of_iff (m.entries = m'.entries) (by cases m; cases m'; simp)

/-- The entry of a key is the only one of that key. -/
theorem get?_of_mem [Std.LawfulEqOrd κ] {m : Keyed κ α} {key : κ} {value : α}
    (h : (key, value) ∈ m.entries) :
    m.get? key = some value := by
  obtain ⟨entries, ordered⟩ := m
  unfold get?
  simp only at h ⊢
  induction entries with
  | nil => cases h
  | cons e rest ih =>
    obtain ⟨below, tail⟩ := List.pairwise_cons.mp ordered
    rcases List.mem_cons.mp h with rfl | h
    · simp
    · have hne : (compare key e.1 == .eq) = false := by
        have hlt := below _ h
        cases hcompare : compare key e.1 with
        | eq =>
          rw [Std.LawfulEqOrd.eq_of_compare hcompare, Std.ReflOrd.compare_self] at hlt
          cases hlt
        | _ => rfl
      rw [List.find?_cons, hne]
      exact ih tail h

theorem find?_insertEntry [Std.TransOrd κ] [Std.LawfulEqOrd κ] (key other : κ) (value : α)
    (entries : List (κ × α)) :
    ((insertEntry key value entries).find? fun e => compare other e.1 == .eq) =
      if compare other key == .eq then some (key, value)
      else entries.find? fun e => compare other e.1 == .eq := by
  induction entries with
  | nil =>
    unfold insertEntry
    rw [List.find?_cons]
    cases compare other key == .eq <;> rfl
  | cons e rest ih =>
    unfold insertEntry
    split
    · rw [List.find?_cons]
      cases compare other key == .eq <;> rfl
    · next heq =>
      -- The replaced entry is found for no other key either.
      obtain rfl := Std.LawfulEqOrd.eq_of_compare heq
      rw [List.find?_cons, List.find?_cons]
      cases compare other e.1 == .eq <;> rfl
    · next hgt =>
      rw [List.find?_cons, ih, List.find?_cons]
      cases hother : compare other e.1 == .eq with
      | true =>
        obtain rfl := Std.LawfulEqOrd.eq_of_compare (beq_iff_eq.mp hother)
        have hlt : compare e.1 key = .lt := Std.OrientedCmp.lt_of_gt hgt
        rw [hlt]
        rfl
      | false => rfl

/-- The other keys keep their values when one is set. -/
theorem get?_insert [Std.TransOrd κ] [Std.LawfulEqOrd κ] (m : Keyed κ α) (key other : κ)
    (value : α) :
    (m.insert key value).get? other =
      if compare other key == .eq then some value else m.get? other := by
  show (List.find? _ (insertEntry key value m.entries)).map Prod.snd = _
  rw [find?_insertEntry]
  split
  · rfl
  · rfl

/-- A key behind all others takes the last place. -/
theorem insert_entries_of_gt [Std.TransOrd κ] [Std.LawfulEqOrd κ] {m : Keyed κ α} {key : κ}
    (value : α)
    (h : ∀ e ∈ m.entries, compare key e.1 = .gt) :
    (m.insert key value).entries = m.entries ++ [(key, value)] := by
  show insertEntry key value m.entries = _
  generalize m.entries = entries at h ⊢
  induction entries with
  | nil => rfl
  | cons e rest ih =>
    simp only [insertEntry, h e List.mem_cons_self, List.cons_append]
    rw [ih fun e he => h e (List.mem_cons_of_mem _ he)]

/-- A key with a value has an entry. -/
theorem mem_of_get? [Std.LawfulEqOrd κ] {m : Keyed κ α} {key : κ} {value : α}
    (h : m.get? key = some value) : (key, value) ∈ m.entries := by
  obtain ⟨e, he, rfl⟩ := Option.map_eq_some_iff.mp h
  have hcompare : (compare key e.1 == .eq) = true :=
    List.find?_some (p := fun e : κ × α => compare key e.1 == .eq) he
  rw [Std.LawfulEqOrd.eq_of_compare (beq_iff_eq.mp hcompare)]
  exact List.mem_of_find?_eq_some he

/-- The keys ascend strictly. -/
theorem keys_ordered (m : Keyed κ α) : m.keys.Pairwise fun a b => compare a b = .lt :=
  List.pairwise_map.mpr m.ordered

theorem keys_nodup [Std.ReflOrd κ] (m : Keyed κ α) : m.keys.Nodup := by
  refine m.keys_ordered.imp fun {a b} hlt heq => ?_
  rw [heq, Std.ReflOrd.compare_self] at hlt
  cases hlt

/-- Maps with the same entries are equal, whatever order the entries were given in. -/
theorem eq_of_entries_perm [Std.OrientedOrd κ] {m m' : Keyed κ α}
    (h : m.entries.Perm m'.entries) : m = m' := by
  obtain ⟨entries, ordered⟩ := m
  obtain ⟨entries', ordered'⟩ := m'
  have hne (a b : κ × α) (hab : compare a.1 b.1 = .lt) (hba : compare b.1 a.1 = .lt) : a = b := by
    rw [Std.OrientedCmp.gt_of_lt hab] at hba
    cases hba
  obtain rfl : entries = entries' :=
    h.eq_of_pairwise (fun a b _ _ hab hba => hne a b hab hba) ordered ordered'
  rfl

/-- Maps that give every key the same value are equal. -/
theorem eq_of_get?_eq [Std.OrientedOrd κ] [Std.LawfulEqOrd κ] {m m' : Keyed κ α}
    (h : ∀ key, m.get? key = m'.get? key) : m = m' := by
  have hsub {m m' : Keyed κ α} (h : ∀ key, m.get? key = m'.get? key) : m.entries ⊆ m'.entries :=
    fun e he => mem_of_get? ((h e.1).symm.trans (get?_of_mem he))
  have hnodup (m : Keyed κ α) : m.entries.Nodup :=
    List.Pairwise.of_map Prod.fst (fun _ _ hkey heq => hkey (congrArg Prod.fst heq)) m.keys_nodup
  exact eq_of_entries_perm ((List.perm_ext_iff_of_nodup (hnodup m) (hnodup m')).mpr
    fun e => ⟨fun he => hsub h he, fun he => hsub (fun key => (h key).symm) he⟩)

section Insertion

variable [Std.LawfulEqOrd κ]

/-- A new key adds its entry to the others. -/
theorem insertEntry_perm {key : κ} {value : α} {entries : List (κ × α)}
    (h : key ∉ entries.map Prod.fst) :
    (insertEntry key value entries).Perm ((key, value) :: entries) := by
  induction entries with
  | nil => exact .refl _
  | cons e rest ih =>
    obtain ⟨hkey, hrest⟩ := not_or.mp (mt List.mem_cons.mpr h)
    unfold insertEntry
    split
    · exact .refl _
    · next heq => exact absurd (Std.LawfulEqOrd.eq_of_compare heq) hkey
    · exact ((ih hrest).cons e).trans (.swap _ _ _)

variable [Std.TransOrd κ]

theorem foldl_insert_perm {entries : List (κ × α)} {m : Keyed κ α}
    (h : ((m.entries ++ entries).map Prod.fst).Nodup) :
    (entries.foldl (fun m e => m.insert e.1 e.2) m).entries.Perm (m.entries ++ entries) := by
  induction entries generalizing m with
  | nil => simp
  | cons e rest ih =>
    have hmiddle : (m.entries ++ e :: rest).Perm (e :: m.entries ++ rest) := List.perm_middle
    have hnodup := (hmiddle.map Prod.fst).nodup_iff.mp h
    have hnew : e.1 ∉ m.entries.map Prod.fst := by
      intro hmem
      refine (List.nodup_cons.mp hnodup).1 ?_
      show e.1 ∈ (m.entries ++ rest).map Prod.fst
      rw [List.map_append]
      exact List.mem_append_left _ hmem
    have hinsert : (m.insert e.1 e.2).entries.Perm (e :: m.entries) := insertEntry_perm hnew
    have hrest := ih (((hinsert.append_right rest).map Prod.fst).nodup_iff.mpr hnodup)
    exact hrest.trans ((hinsert.append_right rest).trans hmiddle.symm)

/-- A map holds all entries of a list in which no key occurs twice. -/
theorem ofList_perm {entries : List (κ × α)} (h : (entries.map Prod.fst).Nodup) :
    (ofList entries).entries.Perm entries :=
  foldl_insert_perm (m := empty) h

end Insertion

end Keyed

end Midframe
