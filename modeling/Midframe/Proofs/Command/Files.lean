import Midframe.Command.Files
import Midframe.Proofs.Command.Paths
import Midframe.Proofs.Keyed
import Midframe.Proofs.Outcome

/-!
# Changing files

Where a path leads only depends on the directories of a tree. Making directories adds to a tree;
writing a file changes what is at one place, which is not that of a directory. So paths go on
leading where they led, and files that are not written stay as they are.
-/

namespace Midframe

namespace FileTree

variable {tree later : FileTree}

/-- What is at any place is still there in the other tree. -/
def Extends (tree later : FileTree) : Prop :=
  ∀ place node, tree.node? place = some node → later.node? place = some node

/-- All directories are still there in the other tree. -/
def KeepsDirectories (tree later : FileTree) : Prop :=
  ∀ place, tree.node? place = some .directory → later.node? place = some .directory

theorem Extends.refl (tree : FileTree) : tree.Extends tree := fun _ _ h => h

theorem Extends.trans {third : FileTree} (h : tree.Extends later) (h' : later.Extends third) :
    tree.Extends third := fun place node hnode => h' place node (h place node hnode)

theorem Extends.keepsDirectories (h : tree.Extends later) : tree.KeepsDirectories later :=
  fun place => h place .directory

/-! ## Where paths lead -/

theorem checkDirectory_eq_ok {place : List String} :
    tree.checkDirectory place = .ok () ↔ tree.node? place = some .directory := by
  unfold checkDirectory
  cases tree.node? place with
  | none => simp
  | some node => cases node <;> simp

theorem follow_cons_eq_ok {place last : List String} {part : String} {rest : List String} :
    tree.follow place (part :: rest) = .ok last ↔ tree.node? place = some .directory ∧
      part.utf8ByteSize ≤ maxName ∧ tree.follow (moved place part) rest = .ok last := by
  rw [follow, bind_eq_ok]
  constructor
  · rintro ⟨⟨⟩, hplace, h⟩
    split at h
    · cases h
    · next hlength => exact ⟨checkDirectory_eq_ok.mp hplace, Nat.not_lt.mp hlength, h⟩
  · rintro ⟨hplace, hlength, h⟩
    refine ⟨(), checkDirectory_eq_ok.mpr hplace, ?_⟩
    rw [if_neg (Nat.not_lt.mpr hlength)]
    exact h

/-- Parts lead on from where those before them lead. -/
theorem follow_append_eq_ok {place last : List String} {front back : List String} :
    tree.follow place (front ++ back) = .ok last ↔
      ∃ middle, tree.follow place front = .ok middle ∧ tree.follow middle back = .ok last := by
  induction front generalizing place with
  | nil => simp [follow]
  | cons part front ih =>
    rw [List.cons_append, follow_cons_eq_ok, ih]
    simp only [follow_cons_eq_ok, ← exists_and_left, and_assoc]

theorem KeepsDirectories.follow (h : tree.KeepsDirectories later) {place last : List String}
    {parts : List String} (hfollow : tree.follow place parts = .ok last) :
    later.follow place parts = .ok last := by
  induction parts generalizing place with
  | nil => exact hfollow
  | cons part rest ih =>
    obtain ⟨hplace, hlength, hrest⟩ := follow_cons_eq_ok.mp hfollow
    exact follow_cons_eq_ok.mpr ⟨h place hplace, hlength, ih hrest⟩

/-- The parts that a path leads along are those between its slashes. -/
theorem eq_parts_of_parts? {path : String} {start parts : List String}
    (h : parts? path = .ok (start, parts)) : parts = Path.parts path := by
  unfold parts? at h
  split at h
  · cases h
  · split at h
    · cases h
    · cases h
      rfl

theorem place?_eq_ok {path : String} {place : List String} :
    tree.place? path = .ok place ↔ ∃ start, parts? path = .ok (start, Path.parts path) ∧
      tree.follow start (Path.parts path) = .ok place := by
  rw [place?, bind_eq_ok]
  constructor
  · rintro ⟨⟨start, parts⟩, hparts, hfollow⟩
    obtain rfl := eq_parts_of_parts? hparts
    exact ⟨start, hparts, hfollow⟩
  · rintro ⟨start, hparts, hfollow⟩
    exact ⟨(start, Path.parts path), hparts, hfollow⟩

theorem KeepsDirectories.place? (h : tree.KeepsDirectories later) {path : String}
    {place : List String} (hplace : tree.place? path = .ok place) :
    later.place? path = .ok place := by
  obtain ⟨start, hparts, hfollow⟩ := place?_eq_ok.mp hplace
  exact place?_eq_ok.mpr ⟨start, hparts, h.follow hfollow⟩

theorem open?_eq_ok {path : String} {node : Node} :
    tree.open? path = .ok node ↔
      ∃ place, tree.place? path = .ok place ∧ tree.node? place = some node := by
  rw [open?, bind_eq_ok]
  refine exists_congr fun place => and_congr_right fun _ => ?_
  cases tree.node? place with
  | none => simp
  | some node => simp

/-! ## Names in directories -/

theorem moved_of_isName (place : List String) {name : String} (h : Path.IsName name) :
    moved place name = place ++ [name] := by
  simp [moved, h.ne_empty, h.ne_dot, h.ne_dots]

theorem follow_name_eq_ok {place last : List String} {name : String} (h : Path.IsName name) :
    tree.follow place [name] = .ok last ↔ tree.node? place = some .directory ∧
      name.utf8ByteSize ≤ maxName ∧ place ++ [name] = last := by
  rw [follow_cons_eq_ok, moved_of_isName place h, follow, Except.ok.injEq]

/-- A name leads from the place of its directory to the place of that name there. -/
theorem place?_join_eq_ok {directory name : String} (h : Path.IsName name) {place : List String} :
    tree.place? (Path.join directory name) = .ok place ↔ ∃ start front,
      parts? (Path.join directory name) = .ok (start, Path.directoryParts directory ++ [name]) ∧
      tree.follow start (Path.directoryParts directory) = .ok front ∧
      tree.node? front = some .directory ∧ name.utf8ByteSize ≤ maxName ∧
      front ++ [name] = place := by
  simp only [place?_eq_ok, Path.parts_join directory h.noSlash, follow_append_eq_ok,
    follow_name_eq_ok h, ← exists_and_left]

/-- Different names in a directory lead to different places. -/
theorem eq_of_place?_join {directory name other : String} (h : Path.IsName name)
    (h' : Path.IsName other) {place : List String}
    (hplace : tree.place? (Path.join directory name) = .ok place)
    (hplace' : tree.place? (Path.join directory other) = .ok place) : name = other := by
  obtain ⟨_, front, -, -, -, -, rfl⟩ := (place?_join_eq_ok h).mp hplace
  obtain ⟨_, front', -, -, -, -, hlast⟩ := (place?_join_eq_ok h').mp hplace'
  exact (List.singleton_inj.mp (List.append_inj' hlast rfl).2).symm

/-! ## Writing -/

/-- What is at a place that was set, and at the others. -/
theorem node?_insert {place : List String} (h : tree.node? place ≠ some .directory) (node : Node)
    (other : List String) :
    FileTree.node? (tree.insert place node) other
      = if other = place then some node else tree.node? other := by
  unfold node? at h ⊢
  rw [Keyed.get?_insert]
  by_cases heq : other = place
  · subst heq
    by_cases hhome : other.isPrefixOf home = true
    · rw [if_pos hhome] at h
      exact absurd rfl h
    · rw [if_neg hhome, if_pos rfl, Std.ReflOrd.compare_self]
      rfl
  · have hcompare : (compare other place == .eq) = false := by
      rw [beq_eq_false_iff_ne]
      exact mt Std.LawfulEqOrd.eq_of_compare heq
    rw [hcompare, if_neg heq]
    rfl

theorem put_eq_ok {place : List String} {node : Node} :
    ((match tree.node? place with
      | some .directory => throw .isDirectory
      | _ => return tree.insert place node) : Except OpenFlaw FileTree) = .ok later ↔
      tree.node? place ≠ some .directory ∧ tree.insert place node = later := by
  split
  · next hnode => simp [hnode]
  · next hnode =>
    simp only [pure_eq_ok]
    exact ⟨fun h => ⟨hnode, h⟩, fun h => h.2⟩

/-- A file is written where its path leads, unless there is a directory. -/
theorem write_join_eq_ok {directory name : String} (h : Path.IsName name) {node : Node} :
    tree.write (Path.join directory name) node = .ok later ↔
      ∃ place, tree.place? (Path.join directory name) = .ok place ∧
        tree.node? place ≠ some .directory ∧ tree.insert place node = later := by
  have hempty : name.isEmpty = false := by
    rw [← Bool.not_eq_true, String.isEmpty_iff]
    exact h.ne_empty
  -- No part is taken off at the end, and the directory is the one on the way to the file.
  have hnamed : ((Path.directoryParts directory ++ [name]).reverse.dropWhile (·.isEmpty)).reverse
      = Path.directoryParts directory ++ [name] := by
    rw [List.reverse_concat, List.dropWhile_cons, hempty, if_neg Bool.false_ne_true,
      ← List.reverse_concat, List.reverse_reverse]
  unfold write
  rw [Path.join_endsWith_slash directory h]
  simp only [bind_eq_ok, Bool.false_eq_true, if_false]
  constructor
  · rintro ⟨⟨start, parts⟩, hparts, front, hfront, ⟨⟩, hdirectory, place, hplace, hwrite⟩
    obtain rfl := eq_parts_of_parts? hparts
    simp only [Path.parts_join directory h.noSlash, hnamed] at hplace
    refine ⟨place, place?_eq_ok.mpr ⟨start, hparts, ?_⟩, put_eq_ok.mp hwrite⟩
    rw [Path.parts_join directory h.noSlash]
    exact hplace
  · rintro ⟨place, hplace, hwrite⟩
    obtain ⟨start, front, hparts, hfront, hdirectory, hlength, rfl⟩ :=
      (place?_join_eq_ok h).mp hplace
    refine ⟨(start, _), hparts, front, ?_, (), checkDirectory_eq_ok.mpr hdirectory,
      front ++ [name], ?_, put_eq_ok.mpr hwrite⟩
    · simp only [hnamed, List.dropLast_concat]
      exact hfront
    · simp only [hnamed]
      exact follow_append_eq_ok.mpr ⟨front, hfront,
        (follow_name_eq_ok h).mpr ⟨hdirectory, hlength, rfl⟩⟩

/-- A new directory adds to a tree. -/
theorem insert_extends {place : List String} (h : tree.node? place = none) (node : Node) :
    tree.Extends (tree.insert place node) := by
  intro other n hother
  rw [node?_insert (by simp [h])]
  split
  · next heq =>
    rw [heq, h] at hother
    cases hother
  · exact hother

/-! ## Making directories -/

theorem makeParts_extends {done parts : List String} {made : Bool}
    (h : tree.makeParts done parts = (later, made)) : tree.Extends later := by
  induction parts generalizing tree done with
  | nil =>
    cases h
    exact .refl _
  | cons part rest ih =>
    rw [makeParts] at h
    split at h
    · cases h
      exact .refl _
    · split at h
      · exact ih h
      · cases h
        exact .refl _
      · next hnone => exact (insert_extends hnone .directory).trans (ih h)

/-- Directories that were made once are found from then on. -/
theorem makeParts_again {third : FileTree} {done parts : List String}
    (h : tree.makeParts done parts = (later, true)) (keeps : later.KeepsDirectories third) :
    third.makeParts done parts = (third, true) := by
  induction parts generalizing tree done with
  | nil => rfl
  | cons part rest ih =>
    rw [makeParts] at h ⊢
    split at h
    · cases h
    · next hlength =>
      rw [if_neg hlength]
      split at h
      · next hdirectory =>
        simp only [keeps _ (makeParts_extends h _ _ hdirectory)]
        exact ih h
      · cases h
      · next hnone =>
        have hdirectory : FileTree.node? (tree.insert (moved done part) .directory)
            (moved done part) = some .directory := by
          rw [node?_insert (by simp [hnone]), if_pos rfl]
        simp only [keeps _ (makeParts_extends h _ _ hdirectory)]
        exact ih h

theorem makeDirectories_extends {path : String} {made : Bool}
    (h : tree.makeDirectories path = (later, made)) : tree.Extends later := by
  unfold makeDirectories at h
  split at h
  · exact makeParts_extends h
  · cases h
    exact .refl tree

theorem makeDirectories_again {third : FileTree} {path : String}
    (h : tree.makeDirectories path = (later, true)) (keeps : later.KeepsDirectories third) :
    third.makeDirectories path = (third, true) := by
  unfold makeDirectories at h ⊢
  split at h
  · exact makeParts_again h keeps
  · cases h

/-- The tree with the directory of a file, and whether it could be made. -/
def makeParent (tree : FileTree) (path : String) : FileTree × Bool :=
  match Path.parent? path with
  | none => (tree, true)
  | some parent => if parent.isEmpty then (tree, true) else tree.makeDirectories parent

theorem makeParent_extends {path : String} {made : Bool}
    (h : tree.makeParent path = (later, made)) : tree.Extends later := by
  unfold makeParent at h
  split at h
  · cases h
    exact .refl tree
  · split at h
    · cases h
      exact .refl tree
    · exact makeDirectories_extends h

theorem makeParent_again {third : FileTree} {path : String}
    (h : tree.makeParent path = (later, true)) (keeps : later.KeepsDirectories third) :
    third.makeParent path = (third, true) := by
  unfold makeParent at h ⊢
  split at h
  · rfl
  · split at h
    · next hempty => rw [if_pos hempty]
    · next hempty =>
      rw [if_neg hempty]
      exact makeDirectories_again h keeps

/-- The files of a directory need the same directory. -/
theorem makeParent_join (tree : FileTree) (directory : String) {name other : String}
    (h : Path.IsName name) (h' : Path.IsName other) :
    tree.makeParent (Path.join directory name) = tree.makeParent (Path.join directory other) := by
  unfold makeParent
  rw [Path.parent?_join directory h h']

/-! ## Images -/

section Images

variable (codec : ImageCodec)

/-- The image that a path names. -/
def image? (tree : FileTree) (path : String) : Option Image :=
  ((Host.inMemory codec).readImage path tree).1

variable {codec}

theorem image?_eq_some {path : String} {image : Image} :
    tree.image? codec path = some image ↔ ∃ extension contents,
      Path.extension? path = some extension ∧ tree.open? path = .ok (.file contents) ∧
        codec.decode extension contents = some image := by
  simp only [image?, Host.inMemory]
  cases Path.extension? path with
  | none => simp
  | some extension =>
    rcases tree.open? path with flaw | (_ | contents) <;> simp

/-- A path that names an image leads to a file. -/
theorem exists_file_of_image? {path : String} {image : Image}
    (h : tree.image? codec path = some image) :
    ∃ place node, tree.place? path = .ok place ∧ tree.node? place = some node ∧
      isFile node = true := by
  obtain ⟨_, contents, -, hopen, -⟩ := image?_eq_some.mp h
  obtain ⟨place, hplace, hnode⟩ := open?_eq_ok.mp hopen
  exact ⟨place, .file contents, hplace, hnode, rfl⟩

/-- The image of a path is that of the file it leads to. -/
theorem image?_congr {path : String} {place : List String} (h : tree.place? path = .ok place)
    (h' : later.place? path = .ok place) (hnode : later.node? place = tree.node? place) :
    later.image? codec path = tree.image? codec path := by
  have hopen : later.open? path = tree.open? path := by
    simp only [open?, h, h', bind, Except.bind, hnode]
  simp only [image?, Host.inMemory, hopen]

/-- The file of a frame holds the image that its bytes stand for as a PNG file. -/
theorem image?_framePath {directory : String} {index : Nat} {place : List String}
    {contents : ByteArray} {image : Image}
    (h : tree.place? (Command.framePath directory index) = .ok place)
    (hnode : tree.node? place = some (.file contents))
    (himage : codec.decode "png" contents = some image) :
    tree.image? codec (Command.framePath directory index) = some image :=
  image?_eq_some.mpr ⟨"png", contents, Command.extension?_framePath _ _,
    open?_eq_ok.mpr ⟨place, h, hnode⟩, himage⟩

end Images

end FileTree

end Midframe
