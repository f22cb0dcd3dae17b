import Midframe.Proofs.Command.Files
import Midframe.Proofs.Command.Hosts

/-!
# Actions of a sequence

The actions of a sequence count the frames that are written, note the paths they are written to and
work on files in memory. What an action gives, and how far the sequence has come with it, is its
`outcome`; chains are followed one action at a time. Reading changes nothing; writing a picture
makes the directory of its file first.
-/

namespace Midframe

namespace Command

/-! ## Actions on files in memory -/

/-- How far a sequence has come: how many frames are written, into which files one after the other,
and what all files hold. -/
structure Standing where
  /-- The number of frames that are written. -/
  count : Nat
  /-- The paths that they were written to. -/
  paths : List String
  /-- All files. -/
  files : FileTree

/-- An action on files in memory that notes the paths it writes to. -/
abbrev Noting (α : Type) : Type := ExceptT Fault (StateT (List String) (StateM FileTree)) α

/-- An action of a sequence on files in memory, which also counts. -/
abbrev Writing (α : Type) : Type :=
  ExceptT Fault (StateT Nat (StateT (List String) (StateM FileTree))) α

namespace Writing

variable {α β : Type}

/-- What an action gives, and how far the sequence has come with it. -/
def outcome (x : Writing α) (s : Standing) : Except Fault α × Standing :=
  let (((result, count), paths), files) := ((x.run.run s.count).run s.paths).run s.files
  (result, ⟨count, paths, files⟩)

theorem outcome_bind (x : Writing α) (f : α → Writing β) (s : Standing) :
    outcome (x >>= f) s = match x.outcome s with
      | (.ok a, later) => (f a).outcome later
      | (.error e, later) => (.error e, later) := by
  have hrun : (((x >>= f).run.run s.count).run s.paths).run s.files
      = match ((x.run.run s.count).run s.paths).run s.files with
        | (((result, count), paths), files) =>
          (((ExceptT.bindCont f result).run count).run paths).run files := rfl
  unfold outcome
  rw [hrun]
  rcases ((x.run.run s.count).run s.paths).run s.files with ⟨⟨⟨_ | _, _⟩, _⟩, _⟩ <;> rfl

theorem run_of_outcome {x : Writing α} {s later : Standing} {result : Except Fault α}
    (h : x.outcome s = (result, later)) :
    ((x.run.run s.count).run s.paths).run s.files
      = (((result, later.count), later.paths), later.files) := by
  obtain ⟨rfl, rfl⟩ := Prod.mk.inj h
  rfl

end Writing

/-- An action succeeds, and what it gives and how far the sequence has come are as described. -/
def Achieves {α : Type} (s : Standing) (x : Writing α) (P : α → Standing → Prop) : Prop :=
  ∃ a later, x.outcome s = (.ok a, later) ∧ P a later

namespace Achieves

variable {α β : Type} {s : Standing} {x : Writing α} {f : α → Writing β}
  {P P' : α → Standing → Prop} {Q : β → Standing → Prop}

theorem pure {a : α} (h : P a s) : Achieves s (Pure.pure a) P := ⟨a, s, rfl, h⟩

/-- A chain goes on from the outcome of its first action. -/
theorem of_outcome {a : α} {later : Standing} (hx : x.outcome s = (.ok a, later))
    (hf : Achieves later (f a) Q) : Achieves s (x >>= f) Q := by
  obtain ⟨b, last, hrun, hQ⟩ := hf
  refine ⟨b, last, ?_, hQ⟩
  rw [Writing.outcome_bind, hx]
  exact hrun

theorem bind (hx : Achieves s x P) (hf : ∀ a later, P a later → Achieves later (f a) Q) :
    Achieves s (x >>= f) Q := by
  obtain ⟨a, later, hrun, hP⟩ := hx
  exact of_outcome hrun (hf a later hP)

theorem mono (hx : Achieves s x P) (h : ∀ a later, P a later → P' a later) : Achieves s x P' := by
  obtain ⟨a, later, hrun, hP⟩ := hx
  exact ⟨a, later, hrun, h a later hP⟩

end Achieves

/-! ## Reading and writing pictures -/

open FileTree

variable {codec : ImageCodec}

/-- A path that names an image is read as its picture. -/
theorem run_readPicture {tree : FileTree} {path : String} {image : Image}
    (h : tree.image? codec path = some image) :
    (readPicture (Host.inMemory codec) path).run.run tree = (.ok (.ofImage image), tree) := by
  have hrun : ((Host.inMemory codec).readImage path).run tree = (some image, tree) :=
    Prod.ext h rfl
  unfold readPicture
  simp only [ExceptT.run_bind, ExceptT.run_liftM, bind_map_left, StateT.run_bind, hrun]
  rfl

/-- What is only read is not noted. -/
theorem run_silent {α : Type} {x : Noting α}
    {y : ExceptT Fault (StateM FileTree) α} (h : (Host.silent (StateM FileTree)).except.Alike x y)
    {tree later : FileTree} {result : Except Fault α} (hy : y.run.run tree = (result, later))
    (paths : List String) : (x.run.run paths).run tree = ((result, paths), later) := by
  have hrun : (x.run.run paths).run tree
      = match y.run.run tree with
        | (result, later) => ((result, paths), later) := by
    rw [show x.run = StateT.lift y.run from h]
    rfl
  rw [hrun, hy]

theorem outcome_readPicture {s : Standing} {path : String} {image : Image}
    (h : s.files.image? codec path = some image) :
    Writing.outcome (counted (readPicture (Host.inMemory codec).recorded path)) s
      = (.ok (.ofImage image), s) := by
  have hrun := run_silent ((Host.silent_reads (Host.inMemory codec)).readPicture path)
    (run_readPicture h) s.paths
  unfold Writing.outcome counted
  simp only [ExceptT.run_mk, StateT.run_lift, StateT.run_bind, hrun]
  rfl

/-- An action on files in memory that changes none of them. -/
def unchanging : Likeness (StateM FileTree) (StateM FileTree) where
  Alike x y := x = y ∧ ∀ tree, (x.run tree).2 = tree
  pure _ := ⟨rfl, fun _ => rfl⟩
  bind := by
    rintro _ _ x _ f g ⟨rfl, hx⟩ hf
    obtain rfl : f = g := funext fun a => (hf a).1
    refine ⟨rfl, fun tree => ?_⟩
    show ((f (x.run tree).1).run (x.run tree).2).2 = tree
    rw [hx, (hf _).2]

theorem unchanging_reads (codec : ImageCodec) :
    unchanging.Reads (Host.inMemory codec) (Host.inMemory codec) where
  readText _ := ⟨rfl, fun _ => rfl⟩
  readImage _ := ⟨rfl, fun _ => rfl⟩
  listFiles _ := ⟨rfl, fun _ => rfl⟩

/-- A network is loaded without changing any file. -/
theorem run_loadNetwork {tree : FileTree} {files : NetworkFiles} {net : Network}
    (h : ((loadNetwork (Host.inMemory codec) files).run.run tree).1 = .ok net) :
    (loadNetwork (Host.inMemory codec) files).run.run tree = (.ok net, tree) :=
  Prod.ext h (((unchanging_reads codec).loadNetwork files).2 tree)

/-- A chain goes on from where its first action leaves off. -/
theorem run_bind {α β : Type} {x : Noting α} {f : α → Noting β} {a : α}
    {paths paths' : List String} {tree later : FileTree}
    (h : (x.run.run paths).run tree = ((.ok a, paths'), later)) :
    ((x >>= f).run.run paths).run tree = ((f a).run.run paths').run later := by
  simp only [ExceptT.run_bind, StateT.run_bind, h]
  rfl

theorem run_orFail {x : StateT (List String) (StateM FileTree) Bool} {paths later : List String}
    {tree ready : FileTree} (h : (x.run paths).run tree = ((true, later), ready))
    (context : String) :
    ((orFail x context).run.run paths).run tree = ((.ok (), later), ready) := by
  simp only [orFail, ExceptT.run_bind, ExceptT.run_liftM, bind_map_left, StateT.run_bind, h]
  rfl

/-- The directory of a file is made before the file is written. -/
theorem run_prepareParent {tree ready : FileTree} {path : String}
    (h : tree.makeParent path = (ready, true)) (paths : List String) :
    ((prepareParent (Host.inMemory codec).recorded path).run.run paths).run tree
      = ((.ok (), paths), ready) := by
  unfold makeParent at h
  unfold prepareParent
  cases hparent : Path.parent? path with
  | none =>
    rw [hparent] at h
    cases h
    rfl
  | some parent =>
    simp only [hparent] at h ⊢
    by_cases hempty : parent.isEmpty = true
    · rw [if_pos hempty] at h ⊢
      cases h
      rfl
    · rw [if_neg hempty] at h ⊢
      refine run_orFail ?_ _
      show (((tree.makeDirectories parent).2, paths), (tree.makeDirectories parent).1) = _
      rw [h]

theorem run_writePicture {tree ready later : FileTree} {path : String} {picture : Picture}
    {image : Image} (made : tree.makeParent path = (ready, true))
    (himage : picture.toImage = .ok image) (filled : image.isEmpty = false)
    (written : ready.write path (.file (codec.encode image)) = .ok later) (paths : List String) :
    ((writePicture (Host.inMemory codec).recorded path picture).run.run paths).run tree
      = ((.ok (), paths ++ [path]), later) := by
  have hwrite : (((Host.inMemory codec).recorded.writeImage path image).run paths).run ready
      = ((true, paths ++ [path]), later) := by
    show (match ((Host.inMemory codec).writeImage path image) ready with
      | (done, tree) => ((done, paths ++ [path]), tree)) = _
    simp only [Host.inMemory, filled, Bool.false_eq_true, if_false, written]
    rfl
  unfold writePicture
  rw [run_bind (run_prepareParent made paths), himage]
  exact run_orFail hwrite _

end Command

end Midframe
