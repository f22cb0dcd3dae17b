import Midframe.Command.Run

/-!
# Names in directories

A name inside a directory becomes the last part of its path, whatever way the directory is written.
The other parts, and with them the directory that is made for the file, do not depend on the name.
The frames of a sequence get different names, all of them names of PNG files.
-/

namespace Midframe

namespace Path

theorem endsWith_slash_iff {path : String} :
    path.endsWith "/" = true ↔ ∃ front, path.toList = front ++ ['/'] := by
  rw [String.endsWith_eq_endsWith_toSlice, String.Slice.endsWith_string_iff, String.copy_toSlice]
  exact ⟨fun ⟨front, h⟩ => ⟨front, h.symm⟩, fun ⟨front, h⟩ => ⟨front, h.symm⟩⟩

/-- The parts of a directory in the paths of what is in it. -/
def directoryParts (directory : String) : List String :=
  if directory.isEmpty then []
  else if directory.endsWith "/" then (parts directory).dropLast
  else parts directory

/-- What stands alone between two slashes and names something. -/
structure IsName (name : String) : Prop where
  /-- It has no slash. -/
  noSlash : '/' ∉ name.toList
  /-- It is not passed over as an empty part. -/
  ne_empty : name ≠ ""
  /-- It does not stay in the directory. -/
  ne_dot : name ≠ "."
  /-- It does not leave the directory. -/
  ne_dots : name ≠ ".."

theorem parts_of_noSlash {name : String} (h : '/' ∉ name.toList) : parts name = [name] := by
  rw [parts, List.splitOn_eq_singleton h, List.map_singleton, String.ofList_toList]

theorem parts_append_slash {path front : String} {name : String} (h : '/' ∉ name.toList)
    (path_eq : path.toList = front.toList ++ '/' :: name.toList) :
    parts path = parts front ++ [name] := by
  rw [parts, path_eq, List.splitOn_append_cons_self, List.map_append, List.splitOn_eq_singleton h,
    List.map_singleton, String.ofList_toList]
  rfl

/-- A name is the last part of its path in a directory. -/
theorem parts_join (directory : String) {name : String} (h : '/' ∉ name.toList) :
    parts (join directory name) = directoryParts directory ++ [name] := by
  unfold join directoryParts
  by_cases hempty : directory.isEmpty = true
  · rw [hempty, Bool.true_or, if_pos rfl, if_pos rfl, String.isEmpty_iff.mp hempty,
      String.empty_append, parts_of_noSlash h, List.nil_append]
  · by_cases hslash : directory.endsWith "/" = true
    · obtain ⟨front, hfront⟩ := endsWith_slash_iff.mp hslash
      rw [hslash, Bool.or_true, if_pos rfl, if_neg hempty, if_pos rfl]
      have hdirectory : parts directory = parts (String.ofList front) ++ [""] :=
        parts_append_slash (by simp) (by simp [hfront])
      have hjoin : parts (directory ++ name) = parts (String.ofList front) ++ [name] :=
        parts_append_slash h (by simp [hfront])
      rw [hdirectory, hjoin, List.dropLast_concat]
    · rw [Bool.eq_false_iff.mpr hempty, Bool.eq_false_iff.mpr hslash, Bool.or_self,
        if_neg Bool.false_ne_true, if_neg Bool.false_ne_true, if_neg Bool.false_ne_true]
      exact parts_append_slash h (by simp)

/-- A path does not end in a slash if it ends in a name. -/
theorem join_endsWith_slash (directory : String) {name : String} (h : IsName name) :
    (join directory name).endsWith "/" = false := by
  rw [← Bool.not_eq_true, endsWith_slash_iff]
  rintro ⟨front, hfront⟩
  have hparts : parts (join directory name) = parts (String.ofList front) ++ [""] :=
    parts_append_slash (by simp) (by simp [hfront])
  rw [parts_join directory h.noSlash] at hparts
  exact h.ne_empty (List.singleton_inj.mp (List.append_inj' hparts rfl).2)

/-- The components of a directory in the paths of what is in it. -/
def directoryComponents (directory : String) : List (Nat × String) :=
  (directoryParts directory).zipIdx.filterMap fun (part, i) =>
    if part.isEmpty || (part == "." && i != 0) then none else some (i, part)

theorem lt_of_mem_directoryComponents {directory : String} {component : Nat × String}
    (h : component ∈ directoryComponents directory) :
    component.1 < (directoryParts directory).length := by
  obtain ⟨⟨part, i⟩, hmem, hcomponent⟩ := List.mem_filterMap.mp h
  simp only [Option.ite_none_left_eq_some, Option.some.injEq] at hcomponent
  obtain ⟨-, rfl⟩ := hcomponent
  exact List.snd_lt_of_mem_zipIdx hmem

/-- A name is the last component of its path in a directory. -/
theorem components_join (directory : String) {name : String} (h : IsName name) :
    components (join directory name)
      = directoryComponents directory ++ [((directoryParts directory).length, name)] := by
  rw [components, parts_join directory h.noSlash, List.zipIdx_append, List.filterMap_append]
  simp [directoryComponents, h.ne_empty, h.ne_dot]

theorem join_startsWith_slash (directory : String) {name : String} (h : IsName name) :
    (join directory name).startsWith "/" = directory.startsWith "/" := by
  rw [Bool.eq_iff_iff, String.startsWith_string_iff, String.startsWith_string_iff]
  have hname : ¬['/'] <+: name.toList := fun hstart =>
    h.noSlash (hstart.mem (List.mem_singleton_self _))
  have happend (front back : List Char) (hfront : front ≠ []) :
      ['/'] <+: front ++ back ↔ ['/'] <+: front := by
    cases front with
    | nil => exact absurd rfl hfront
    | cons c front => simp
  unfold join
  by_cases hempty : directory = ""
  · subst hempty
    simpa using hname
  · have hne : directory.toList ≠ [] := by simpa using hempty
    split
    · rw [String.toList_append]
      exact happend _ _ hne
    · rw [String.toList_append, String.toList_append, List.append_assoc]
      exact happend _ _ hne

/-- The directory that a file is written into does not depend on its name. -/
theorem parent?_join (directory : String) {name other : String} (h : IsName name)
    (h' : IsName other) : parent? (join directory name) = parent? (join directory other) := by
  unfold parent?
  rw [components_join directory h, components_join directory h', List.reverse_concat,
    List.reverse_concat, parts_join directory h.noSlash, parts_join directory h'.noSlash,
    join_startsWith_slash directory h, join_startsWith_slash directory h']
  cases hfront : (directoryComponents directory).reverse with
  | nil => rfl
  | cons component rest =>
    have hmem : component ∈ (directoryComponents directory).reverse :=
      hfront ▸ List.mem_cons_self
    have hlt := lt_of_mem_directoryComponents (List.mem_reverse.mp hmem)
    simp only [List.take_append_of_le_length (Nat.succ_le_of_lt hlt)]

/-- The extension of a path is what stands behind the dot in its name. -/
theorem extension?_join (directory : String) {name : String} (h : IsName name)
    {stem extension : List Char} (name_eq : name.toList = stem ++ '.' :: extension)
    (stem_ne : stem ≠ []) (stem_dot : '.' ∉ stem) (extension_dot : '.' ∉ extension) :
    extension? (join directory name) = some (String.ofList extension).toLower := by
  have hsplit : name.toList.splitOn '.' = [stem, extension] := by
    rw [name_eq, List.splitOn_append_cons_self, List.splitOn_eq_singleton stem_dot,
      List.splitOn_eq_singleton extension_dot]
    rfl
  have hstem : stem.isEmpty = false := by
    rw [← Bool.not_eq_true, List.isEmpty_iff]
    exact stem_ne
  unfold extension?
  rw [components_join directory h, List.getLast?_concat]
  simp [hsplit, hstem]

end Path

namespace Command

/-! ## The files of a sequence -/

/-- The number of a frame with its leading zeros. -/
def frameDigits (index : Nat) : List Char :=
  List.replicate (6 - (Nat.toDigits 10 index).length) '0' ++ Nat.toDigits 10 index

theorem toList_frameName (index : Nat) :
    (frameName index).toList = frameDigits index ++ ['.', 'p', 'n', 'g'] := by
  simp [frameName, frameDigits, Nat.repr]

theorem isDigit_of_mem_frameDigits {index : Nat} {c : Char} (h : c ∈ frameDigits index) :
    c.isDigit = true := by
  rcases List.mem_append.mp h with h | h
  · rw [List.eq_of_mem_replicate h]
    rfl
  · exact Nat.isDigit_of_mem_toDigits (by decide) (by decide) h

theorem frameDigits_ne_nil (index : Nat) : frameDigits index ≠ [] := by
  simp [frameDigits]

theorem frameName_isName (index : Nat) : Path.IsName (frameName index) := by
  have hlength : 4 < (frameName index).toList.length := by
    have hpos := List.length_pos_iff.mpr (frameDigits_ne_nil index)
    rw [toList_frameName, List.length_append]
    exact Nat.lt_add_of_pos_left hpos
  refine ⟨fun h => ?_, fun h => ?_, fun h => ?_, fun h => ?_⟩
  · rw [toList_frameName] at h
    rcases List.mem_append.mp h with h | h
    · exact absurd (isDigit_of_mem_frameDigits h) (by decide)
    · exact absurd h (by decide)
  all_goals
    rw [h] at hlength
    exact absurd hlength (by decide)

/-- Different frames have different names. -/
theorem frameName_injective : Function.Injective frameName := by
  intro i j h
  have hdigits : frameDigits i = frameDigits j :=
    List.append_cancel_right (by rw [← toList_frameName, ← toList_frameName, h])
  have hnumber (index : Nat) : Nat.ofDigitChars 10 (frameDigits index) 0 = index := by
    rw [frameDigits, Nat.ofDigitChars_append, Nat.ofDigitChars_replicate_zero, Nat.mul_zero,
      Nat.ofDigitChars_ten_toDigits]
  rw [← hnumber i, hdigits, hnumber]

/-- The path of the file of a frame. -/
def framePath (directory : String) (index : Nat) : String := Path.join directory (frameName index)

/-- The files of frames are PNG files. -/
theorem extension?_framePath (directory : String) (index : Nat) :
    Path.extension? (framePath directory index) = some "png" := by
  have hdot : '.' ∉ frameDigits index := fun h =>
    absurd (isDigit_of_mem_frameDigits h) (by decide)
  rw [framePath, Path.extension?_join directory (frameName_isName index) (toList_frameName index)
    (frameDigits_ne_nil index) hdot (by decide)]
  decide +kernel

end Command

end Midframe
