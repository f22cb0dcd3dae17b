import Mathlib.Data.List.Sort
import Midframe.Proofs.Command.Actions
import Midframe.Proofs.Command.Pictures
import Midframe.Proofs.Interpolation.Refinement
import Midframe.Proofs.Network.Defaults
import Midframe.Proofs.Raster.Png

/-!
# Raising the frame rate of a directory

The frames of a directory are read one at a time, and those of an interval are written before the
next one is read. After each write, the files written so far hold the first frames of the refined
sequence, and everything else is as it was once the directory for them was there. So, as long as no
file is written over before it is read, the files at the multiples of the factor hold the images
that the sequence was made from.
-/

namespace Midframe

namespace Command

open FileTree

/-! ## The frames that are written -/

/-- So many frames can be written into a directory: it is there or can be made, which gives the tree
`ready`, and each of them has a place that is not that of a directory. -/
structure TakesFrames (tree : FileTree) (out : String) (count : Nat)
    (ready : FileTree) : Prop where
  /-- The directory is there, or is made. -/
  made : tree.makeParent (framePath out 0) = (ready, true)
  /-- The places of the frames are free for files. -/
  free : ∀ i < count, ∃ place, ready.place? (framePath out i) = .ok place ∧
    ready.node? place ≠ some .directory

/-- The frames are written into their files, each one once, and all other files are as in the tree
`ready`. -/
structure Written (codec : ImageCodec) (ready : FileTree) (out : String) (frames : List Picture)
    (s : Standing) : Prop where
  /-- The frames are counted. -/
  count : s.count = frames.length
  /-- They were written one after the other. -/
  paths : s.paths = (List.range frames.length).map (framePath out)
  /-- There are the same directories. -/
  directories : ∀ place, s.files.node? place = some .directory ↔ ready.node? place = some .directory
  /-- The files hold the frames. -/
  images : ∀ (i : Nat) (h : i < frames.length) (place : List String),
    ready.place? (framePath out i) = .ok place → ∃ image, frames[i].toImage = .ok image ∧
      s.files.node? place = some (.file (codec.encode image))
  /-- Nothing else has changed. -/
  others : ∀ place, (∀ i < frames.length, ready.place? (framePath out i) ≠ .ok place) →
    s.files.node? place = ready.node? place

theorem eq_of_place?_framePath {tree : FileTree} {out : String} {i j : Nat} {place : List String}
    (hi : tree.place? (framePath out i) = .ok place)
    (hj : tree.place? (framePath out j) = .ok place) : i = j :=
  frameName_injective (eq_of_place?_join (frameName_isName i) (frameName_isName j) hi hj)

namespace Written

variable {codec : ImageCodec} {ready : FileTree} {out : String} {frames : List Picture}
  {s : Standing}

/-- Before the first frame. -/
theorem nil (codec : ImageCodec) (ready : FileTree) (out : String) :
    Written codec ready out [] ⟨0, [], ready⟩ where
  count := rfl
  paths := rfl
  directories _ := .rfl
  images _ h := nomatch h
  others _ _ := rfl

theorem keepsDirectories (h : Written codec ready out frames s) : ready.KeepsDirectories s.files :=
  fun place => (h.directories place).mpr

/-- One more frame. -/
theorem concat (h : Written codec ready out frames s) {place : List String}
    (hplace : ready.place? (framePath out frames.length) = .ok place)
    (free : ready.node? place ≠ some .directory) {frame : Picture} {image : Image}
    (himage : frame.toImage = .ok image) :
    Written codec ready out (frames ++ [frame])
      ⟨s.count + 1, s.paths ++ [framePath out s.count],
        s.files.insert place (.file (codec.encode image))⟩ := by
  have hfree : s.files.node? place ≠ some .directory := mt (h.directories place).mp free
  refine ⟨?_, ?_, fun other => ?_, fun i hi other hother => ?_, fun other hother => ?_⟩
  · simp [h.count]
  · simp [h.paths, h.count, List.range_succ]
  · rw [node?_insert hfree]
    split
    · next heq =>
      subst heq
      simp [free]
    · exact h.directories other
  · rw [node?_insert hfree]
    rcases Nat.lt_or_ge i frames.length with hlt | hge
    · have hne : other ≠ place := by
        rintro rfl
        exact absurd (eq_of_place?_framePath hother hplace) (Nat.ne_of_lt hlt)
      rw [if_neg hne, List.getElem_append_left hlt]
      exact h.images i hlt other hother
    · have hlength : i = frames.length := by
        rw [List.length_append, List.length_singleton] at hi
        omega
      subst hlength
      rw [hplace] at hother
      cases hother
      rw [if_pos rfl, List.getElem_concat_length]
      · exact ⟨image, himage, rfl⟩
      · rfl
  · have hne : other ≠ place := by
      rintro rfl
      exact hother frames.length (by simp) hplace
    rw [node?_insert hfree, if_neg hne]
    exact h.others other fun i hi => hother i (by simp; omega)

/-- A file that is not one of the frames written so far is read as it was. -/
theorem image?_eq (h : Written codec ready out frames s) {tree : FileTree}
    (extends_ready : tree.Extends ready) {path : String} {image : Image}
    (himage : tree.image? codec path = some image)
    (apart : ∀ i < frames.length, ready.place? (framePath out i) ≠ ready.place? path) :
    s.files.image? codec path = some image := by
  obtain ⟨place, node, hplace, hnode, -⟩ := exists_file_of_image? himage
  have hready : ready.place? path = .ok place := extends_ready.keepsDirectories.place? hplace
  have hother : s.files.node? place = ready.node? place :=
    h.others place fun i hi => hready ▸ apart i hi
  rw [image?_congr hplace (h.keepsDirectories.place? hready), himage]
  rw [hother, extends_ready place node hnode, hnode]

end Written

section Frames

variable {codec : ImageCodec} {tree ready : FileTree} {out : String} {frames : List Picture}
  {count : Nat} {s : Standing}

/-- The next frame is written, whether or not its directory is there already. -/
theorem achieves_writeNext {directory : FileTree}
    (made : s.files.makeParent (framePath out 0) = (directory, true))
    (h : Written codec ready out frames ⟨s.count, s.paths, directory⟩)
    (takes : TakesFrames tree out count ready) (fits : frames.length < count)
    {frame : Picture} (storable : frame.IsStorable) :
    Achieves s (writeNext (Host.inMemory codec).recorded out frame) fun _ later =>
      Written codec ready out (frames ++ [frame]) later := by
  obtain ⟨image, himage, filled⟩ := storable.exists_image
  obtain ⟨place, hplace, free⟩ := takes.free frames.length fits
  have hcount : s.count = frames.length := h.count
  have hmade : s.files.makeParent (framePath out s.count) = (directory, true) :=
    (makeParent_join s.files out (frameName_isName _) (frameName_isName 0)).trans made
  have hwrite : directory.write (framePath out s.count) (.file (codec.encode image))
      = .ok (directory.insert place (.file (codec.encode image))) := by
    rw [hcount]
    exact (write_join_eq_ok (frameName_isName _)).mpr
      ⟨place, h.keepsDirectories.place? hplace, mt (h.directories place).mp free, rfl⟩
  have hrun := run_writePicture hmade himage filled hwrite s.paths
  unfold framePath at hrun
  refine ⟨(), ⟨s.count + 1, s.paths ++ [framePath out s.count],
    directory.insert place (.file (codec.encode image))⟩, ?_, h.concat hplace free himage⟩
  unfold Writing.outcome writeNext counted
  simp only [ExceptT.run_bind, ExceptT.run_liftM, ExceptT.run_mk, bind_map_left, StateT.run_bind,
    StateT.run_get, StateT.run_lift, pure_bind, hrun]
  rfl

/-- Frames are written one after the other. -/
theorem achieves_forM (takes : TakesFrames tree out count ready)
    (h : Written codec ready out frames s) {new : List Picture}
    (storable : ∀ frame ∈ new, frame.IsStorable)
    (fits : frames.length + new.length ≤ count) :
    Achieves s (new.forM (writeNext (Host.inMemory codec).recorded out)) fun _ later =>
      Written codec ready out (frames ++ new) later := by
  induction new generalizing frames s with
  | nil =>
    rw [List.append_nil]
    exact .pure h
  | cons frame rest ih =>
    obtain ⟨hframe, hrest⟩ := List.forall_mem_cons.mp storable
    rw [List.length_cons] at fits
    have made := makeParent_again takes.made h.keepsDirectories
    refine (achieves_writeNext made h takes (by omega) hframe).bind fun _ later hlater => ?_
    have hnext := ih hlater hrest (by simp; omega)
    rwa [List.append_assoc] at hnext

/-- The intervals behind a frame are read, filled and written one after the other, if no file is
overwritten before it is read. -/
theorem achieves_courseFrom {net : Network} {k emitted : Nat} {left : Picture}
    {sources : List (String × Image)} {behind : List Picture}
    (takes : TakesFrames tree out count ready)
    (images : ∀ e ∈ sources, tree.image? codec e.1 = some e.2)
    (apart : ∀ (i : Nat) (h : i < sources.length), ∀ j < frames.length + i * 2 ^ k,
      ready.place? (framePath out j) ≠ ready.place? sources[i].1)
    (h : Written codec ready out frames s)
    (made : betweenAll net.estimate k left (sources.map fun e => .ofImage e.2) = .ok behind)
    (storable : ∀ frame ∈ behind, frame.IsStorable)
    (fits : frames.length + behind.length ≤ count) :
    Achieves s (courseFrom (fun a b => settled (net.estimate a b))
        (writeNext (Host.inMemory codec).recorded out) (pure ()) k emitted left
        (sources.map fun e => counted (readPicture (Host.inMemory codec).recorded e.1)))
      fun total later => total = emitted + behind.length ∧
        Written codec ready out (frames ++ behind) later := by
  induction sources generalizing frames s emitted left behind with
  | nil =>
    obtain rfl := Except.ok.inj made
    rw [List.append_nil]
    exact ⟨_, s, rfl, rfl, h⟩
  | cons source rest ih =>
    obtain ⟨himage, hrest⟩ := List.forall_mem_cons.mp images
    obtain ⟨before, after, hbefore, hafter, rfl⟩ := betweenAll_cons_eq_ok.mp made
    obtain ⟨hstored, hstored'⟩ := List.forall_mem_append.mp storable
    rw [List.length_append] at fits
    have hlength := length_of_between hbefore
    have hread : s.files.image? codec source.1 = some source.2 :=
      h.image?_eq (makeParent_extends takes.made) himage
        fun j hj => apart 0 (Nat.zero_lt_succ _) j (by omega)
    rw [List.map_cons, courseFrom_cons]
    refine .of_outcome (outcome_readPicture hread) ?_
    rw [hbefore]
    refine .of_outcome (a := before) rfl ?_
    refine (achieves_forM takes h hstored (by omega)).bind fun _ later hlater => ?_
    have hapart : ∀ (i : Nat) (h : i < rest.length), ∀ j < (frames ++ before).length + i * 2 ^ k,
        ready.place? (framePath out j) ≠ ready.place? rest[i].1 := by
      intro i hi j hj
      refine apart (i + 1) (Nat.succ_lt_succ hi) j ?_
      rw [List.length_append, hlength] at hj
      rw [Nat.succ_mul]
      omega
    refine (ih hrest hapart hlater hafter hstored' (by simp; omega)).mono fun total last => ?_
    rintro ⟨rfl, hlast⟩
    rw [List.append_assoc] at hlast
    refine ⟨?_, hlast⟩
    rw [List.length_append, hlength]
    omega

/-- A stream of the frames in some files writes the frames of the refined sequence. -/
theorem achieves_stream {net : Network} {k : Nat} {sources : List (String × Image)}
    (takes : TakesFrames tree out frames.length ready) (ne : sources ≠ [])
    (images : ∀ e ∈ sources, tree.image? codec e.1 = some e.2)
    (apart : ∀ (i : Nat) (h : i < sources.length) (j : Nat), i ≠ 0 → j ≤ (i - 1) * 2 ^ k →
      ready.place? (framePath out j) ≠ ready.place? sources[i].1)
    (made : refined net.estimate k (sources.map fun e => .ofImage e.2) = .ok frames)
    (storable : ∀ frame ∈ frames, frame.IsStorable) :
    Achieves ⟨0, [], tree⟩ (interpolateStream
        (sources.map fun e => counted (readPicture (Host.inMemory codec).recorded e.1)) (2 ^ k)
        (fun a b => settled (net.estimate a b)) (writeNext (Host.inMemory codec).recorded out))
      fun total later => total = frames.length ∧ Written codec ready out frames later := by
  rw [interpolateStream_eq_course]
  cases sources with
  | nil => exact absurd rfl ne
  | cons source rest =>
    obtain ⟨himage, hrest⟩ := List.forall_mem_cons.mp images
    obtain ⟨behind, hbehind, rfl⟩ := refined_cons_eq_ok.mp made
    obtain ⟨hfirst, hstored⟩ := List.forall_mem_cons.mp storable
    refine .of_outcome (outcome_readPicture (s := ⟨0, [], tree⟩) himage) ?_
    refine (achieves_writeNext (s := ⟨0, [], tree⟩) takes.made (Written.nil codec ready out) takes
      (Nat.zero_lt_succ _) hfirst).bind fun _ later hlater => ?_
    have hapart : ∀ (i : Nat) (h : i < rest.length), ∀ j < 1 + i * 2 ^ k,
        ready.place? (framePath out j) ≠ ready.place? rest[i].1 := fun i hi j hj =>
      apart (i + 1) (Nat.succ_lt_succ hi) j (Nat.succ_ne_zero i) (by rw [Nat.add_sub_cancel]; omega)
    refine (achieves_courseFrom takes hrest hapart hlater hbehind hstored (by simp; omega)).mono
      fun total last => ?_
    rintro ⟨rfl, hlast⟩
    exact ⟨by rw [List.length_cons, Nat.add_comm], hlast⟩

end Frames

/-! ## The command -/

/-- The files in a directory, by their names in ascending order, are images. -/
structure HoldsFrames (codec : ImageCodec) (tree : FileTree) (directory : String)
    (held : List (String × Image)) : Prop where
  /-- There are no other files. -/
  listed : ∃ names, tree.listFiles directory = some names ∧ names.Perm (held.map Prod.fst)
  /-- The names ascend. -/
  ascending : (held.map Prod.fst).Pairwise fun a b => compare a b = .lt
  /-- The files hold the images. -/
  images : ∀ e ∈ held, tree.image? codec (Path.join directory e.1) = some e.2
  /-- The images can be stored. -/
  storable : ∀ e ∈ held, e.2.IsStorable

instance : Std.Total fun a b : String => (compare a b).isLE = true where
  total a b := by
    by_cases hab : (compare a b).isLE = true
    · exact .inl hab
    · rw [Std.OrientedCmp.lt_of_not_isLE hab]
      exact .inr rfl

instance : IsTrans String fun a b => (compare a b).isLE = true where
  trans _ _ _ := Std.TransCmp.isLE_trans

instance : Std.Antisymm fun a b : String => (compare a b).isLE = true where
  antisymm _ _ hab hba := Std.LawfulEqOrd.eq_of_compare (Std.OrientedCmp.isLE_antisymm hab hba)

/-- Names are sorted by putting each of them in its place. -/
theorem mergeSort_names (names : List String) : names.mergeSort (fun a b => (compare a b).isLE)
    = names.insertionSort fun a b => (compare a b).isLE = true := by
  have h := List.mergeSort_eq_insertionSort (fun a b : String => (compare a b).isLE = true) names
  simpa only [Bool.decide_eq_true] using h

theorem mergeSort_eq_of_ascending {names sorted : List String} (hperm : names.Perm sorted)
    (ascending : sorted.Pairwise fun a b => compare a b = .lt) :
    names.mergeSort (fun a b => (compare a b).isLE) = sorted := by
  have hsorted : sorted.Pairwise fun a b => (compare a b).isLE = true :=
    ascending.imp fun h => by rw [h]; rfl
  rw [mergeSort_names]
  exact ((List.perm_insertionSort _ names).trans hperm).eq_of_pairwise'
    (List.pairwise_insertionSort _ names) hsorted

/-- The frames of a directory are read in the order of their names. -/
theorem run_listFrames {codec : ImageCodec} {tree : FileTree} {directory : String}
    {held : List (String × Image)} (h : HoldsFrames codec tree directory held) (ne : held ≠ []) :
    (listFrames (Host.inMemory codec) directory).run.run tree
      = (.ok (held.map fun e => Path.join directory e.1), tree) := by
  obtain ⟨names, hnames, hperm⟩ := h.listed
  have hempty : names.isEmpty = false := by
    rw [← Bool.not_eq_true, List.isEmpty_iff]
    rintro rfl
    exact ne (List.map_eq_nil_iff.mp hperm.nil_eq.symm)
  have hlist : ((Host.inMemory codec).listFiles directory).run tree = (some names, tree) :=
    Prod.ext hnames rfl
  unfold listFrames
  simp only [ExceptT.run_bind, ExceptT.run_liftM, bind_map_left, StateT.run_bind, hlist]
  show (if names.isEmpty then _ else _ : ExceptT Fault (StateM FileTree) _).run.run tree = _
  rw [hempty, mergeSort_eq_of_ascending hperm h.ascending, List.map_map]
  rfl

/-- No frame is written over a file that is read later: each file but the first one is read when the
intervals in front of it, and nothing else, are written. -/
def ReadInTime (ready : FileTree) (input out : String) (factor : Nat)
    (held : List (String × Image)) : Prop :=
  ∀ (i : Nat) (h : i < held.length) (j : Nat), i ≠ 0 → j ≤ (i - 1) * factor →
    ready.place? (framePath out j) ≠ ready.place? (Path.join input held[i].1)

section Sequences

variable {codec : ImageCodec} {tree ready : FileTree} {input out : String} {factor : Nat}
  {net : Network}
  {held : List (String × Image)} {frames : List Picture}

/-- The pictures of a sequence can be stored. -/
theorem isStorable_of_refined {k : Nat} (holds : HoldsFrames codec tree input held)
    (made : refined net.estimate k (held.map fun e => .ofImage e.2) = .ok frames) :
    ∀ frame ∈ frames, frame.IsStorable := by
  refine forall_of_refined (fun one two middle hone hmiddle =>
    Network.estimate_isStorable hone hmiddle) ?_ made
  intro frame hframe
  obtain ⟨e, he, rfl⟩ := List.mem_map.mp hframe
  exact Picture.ofImage_isStorable (holds.storable e he)

theorem run_runSequence {files : NetworkFiles}
    (network : (loadNetwork (Host.inMemory codec) files).run.run tree = (.ok net, tree))
    (holds : HoldsFrames codec tree input held) (ne : held ≠ [])
    (power : isPowerOfTwo factor = true)
    (estimates : interpolateSequence (held.map fun e => .ofImage e.2) factor net.estimate
      = .ok frames)
    (takes : TakesFrames tree out frames.length ready)
    (inTime : ReadInTime ready input out factor held) :
    ∃ last : FileTree,
      ((runSequence (Host.inMemory codec).recorded input out factor files).run.run []).run tree
        = ((.ok { remarks := s!"wrote {frames.length} frames to {out}\n" },
            (List.range frames.length).map (framePath out)), last) ∧
      Written codec ready out frames
        ⟨frames.length, (List.range frames.length).map (framePath out), last⟩ := by
  obtain ⟨k, rfl⟩ := isPowerOfTwo_iff.mp power
  rw [interpolateSequence_eq_refined] at estimates
  let sources := held.map fun e => (Path.join input e.1, e.2)
  have himages : ∀ e ∈ sources, tree.image? codec e.1 = some e.2 := by
    intro e he
    obtain ⟨source, hsource, rfl⟩ := List.mem_map.mp he
    exact holds.images source hsource
  have hapart : ∀ (i : Nat) (h : i < sources.length) (j : Nat), i ≠ 0 → j ≤ (i - 1) * 2 ^ k →
      ready.place? (framePath out j) ≠ ready.place? sources[i].1 := by
    intro i hi j hne hj
    rw [List.getElem_map]
    exact inTime i (by simpa [sources] using hi) j hne hj
  have hstream := achieves_stream takes (by simpa [sources] using ne) himages hapart
    (by rw [List.map_map]; exact estimates) (isStorable_of_refined holds estimates)
  obtain ⟨total, ⟨count, paths, last⟩, hrun, rfl, hwritten⟩ := hstream
  obtain rfl : count = frames.length := hwritten.count
  obtain rfl : paths = (List.range frames.length).map (framePath out) := hwritten.paths
  refine ⟨last, ?_, hwritten⟩
  have hreads := Host.silent_reads (Host.inMemory codec)
  have hnetwork := run_silent (hreads.loadNetwork files) network []
  have hlist := run_silent (hreads.listFrames input) (run_listFrames holds ne) []
  have hrun := Writing.run_of_outcome hrun
  rw [List.map_map] at hrun
  have hstream : ((ExceptT.mk (do return (← (interpolateStream
          ((held.map fun e => Path.join input e.1).map fun path =>
            counted (readPicture (Host.inMemory codec).recorded path)) (2 ^ k)
          (fun a b => settled (net.estimate a b))
          (writeNext (Host.inMemory codec).recorded out)).run.run 0).1) :
        Noting Nat).run.run []).run tree
      = ((.ok frames.length, (List.range frames.length).map (framePath out)), last) := by
    rw [List.map_map]
    simp only [ExceptT.run_mk, StateT.run_bind, Function.comp_def] at hrun ⊢
    rw [hrun]
    rfl
  unfold runSequence
  rw [run_bind hnetwork, run_bind hlist, run_bind hstream]
  rfl

/-- The program gives what its command gives. -/
theorem run_runProgram {arguments : List String} {log : String} {command : Command}
    (reads : Invocation.read arguments = .ok ⟨log, command⟩) (logs : LogFilter.check log = .ok ())
    {report : Report} {paths : List String} {last : FileTree}
    (h : ((command.run (Host.inMemory codec).recorded).run.run []).run tree
      = ((.ok report, paths), last)) :
    ((runProgram (Host.inMemory codec).recorded arguments).run []).run tree
      = ((⟨0, report.output, report.remarks⟩, paths), last) := by
  unfold runProgram
  simp only [reads, logs, StateT.run_bind, h]
  rfl

/-- A directory of images of any formats is taken to a higher frame rate, whether or not the frames
are written into that same directory: the program succeeds and reports the frames, each of which is
written once and in its turn; its file holds it in the end, and every other file is as it was. The
files at the multiples of the factor hold the images of the directory, as these were at the start.
All that is asked of the codec is that it writes the frames without loss. -/
theorem sequence_keeps_frames {arguments : List String} {log : String} {files : NetworkFiles}
    (reads : Invocation.read arguments = .ok ⟨log, .sequence input out factor files⟩)
    (logs : LogFilter.check log = .ok ())
    (network : ((loadNetwork (Host.inMemory codec) files).run.run tree).1 = .ok net)
    (holds : HoldsFrames codec tree input held) (ne : held ≠ [])
    (power : isPowerOfTwo factor = true)
    (estimates : interpolateSequence (held.map fun e => .ofImage e.2) factor net.estimate
      = .ok frames)
    (takes : TakesFrames tree out ((held.length - 1) * factor + 1) ready)
    (inTime : ReadInTime ready input out factor held)
    (lossless : ∀ frame ∈ frames, ∀ image, frame.toImage = .ok image →
      codec.decode "png" (codec.encode image) = some image) :
    ∃ last : FileTree,
      (runProgram (Host.inMemory codec) arguments).run tree
        = (⟨0, "", s!"wrote {(held.length - 1) * factor + 1} frames to {out}\n"⟩, last) ∧
      ((runProgram (Host.inMemory codec).recorded arguments).run []).run tree
        = ((⟨0, "", s!"wrote {(held.length - 1) * factor + 1} frames to {out}\n"⟩,
            (List.range ((held.length - 1) * factor + 1)).map (framePath out)), last) ∧
      frames.length = (held.length - 1) * factor + 1 ∧
      (∀ (i : Nat) (h : i < frames.length), ∃ image, frames[i].toImage = .ok image ∧
        last.image? codec (framePath out i) = some image) ∧
      (∀ (i : Nat) (h : i < held.length),
        last.image? codec (framePath out (i * factor)) = some held[i].2) ∧
      ∀ place, (∀ i < (held.length - 1) * factor + 1, ready.place? (framePath out i) ≠ .ok place) →
        last.node? place = ready.node? place := by
  have hlength : frames.length = (held.length - 1) * factor + 1 := by
    obtain ⟨k, rfl⟩ := isPowerOfTwo_iff.mp power
    rw [interpolateSequence_eq_refined] at estimates
    rw [length_of_refined estimates (by simpa using ne), List.length_map]
  rw [← hlength] at takes ⊢
  obtain ⟨last, hrun, hwritten⟩ :=
    run_runSequence (run_loadNetwork network) holds ne power estimates takes inTime
  have hprogram := run_runProgram reads logs hrun
  have himage {i : Nat} (h : i < frames.length) : ∃ image, frames[i].toImage = .ok image ∧
      last.image? codec (framePath out i) = some image := by
    obtain ⟨place, hplace, -⟩ := takes.free i h
    obtain ⟨image, himage, hnode⟩ := hwritten.images i h place hplace
    exact ⟨image, himage, image?_framePath (hwritten.keepsDirectories.place? hplace) hnode
      (lossless _ (List.getElem_mem h) image himage)⟩
  refine ⟨last, ?_, hprogram, rfl, fun i h => himage h, fun i h => ?_, hwritten.others⟩
  · rw [← Host.runProgram_recorded (Host.inMemory codec) arguments []]
    rw [StateT.run_map, hprogram]
    rfl
  · obtain ⟨k, rfl⟩ := isPowerOfTwo_iff.mp power
    rw [interpolateSequence_eq_refined] at estimates
    have hframe := getElem?_of_refined estimates (i := i) (by simpa using h)
    obtain ⟨hi, hframe⟩ := List.getElem?_eq_some_iff.mp hframe
    obtain ⟨image, hstored, hread⟩ := himage hi
    have hstorable := holds.storable _ (List.getElem_mem h)
    rw [hframe, List.getElem_map, Picture.toImage_ofImage hstorable.width hstorable.height]
      at hstored
    cases hstored
    exact hread

end Sequences

/-! ## Sequences of single pixels -/

/-- A directory takes frames if each of them can be written as the first one. -/
theorem takesFrames_of_write {tree ready : FileTree} {out : String} {count : Nat}
    (made : tree.makeParent (framePath out 0) = (ready, true))
    (writes : ∀ i < count, (ready.write (framePath out i) (.file .empty)).isOk = true) :
    TakesFrames tree out count ready where
  made := made
  free i hi := by
    obtain ⟨later, hlater⟩ := exists_eq_ok_of_isOk (writes i hi)
    obtain ⟨place, hplace, free, -⟩ := (write_join_eq_ok (frameName_isName i)).mp hlater
    exact ⟨place, hplace, free⟩

/-- An image of one pixel. -/
def dot (pixel : Pixel) : Image := ⟨1, 1, ⟨#[pixel], rfl⟩⟩

theorem dot_isStorable (pixel : Pixel) : (dot pixel).IsStorable :=
  ⟨rfl, Nat.le_of_ble_eq_true rfl, Nat.le_of_ble_eq_true rfl⟩

/-- An image of a red pixel. -/
def red : Image := dot ⟨255, 0, 0⟩

/-- An image of a blue pixel. -/
def blue : Image := dot ⟨0, 0, 255⟩

/-- A directory with something in it. -/
def directoryOf (nodes : List (String × Node)) : FileTree :=
  Keyed.ofList ((home ++ ["d"], .directory) :: nodes.map fun e => (home ++ ["d", e.1], e.2))

/-- The file of an image. -/
def fileOf (image : Image) : Node := .file (ImageCodec.builtin.encode image)

/-- A directory with a red and a blue pixel in it. -/
def pixels (first second : String) : FileTree :=
  directoryOf [(first, fileOf red), (second, fileOf blue)]

/-- The arguments for a sequence that is written into the directory that it is read from. -/
def inPlace (factor : String) : List String :=
  ["sequence", "--in", "d", "--out", "d", "--factor", factor]

/-- Without any file, the network of the default configuration is taken. -/
theorem loadNetwork_default {codec : ImageCodec} {tree : FileTree} {net : Network}
    (h : Network.build {} = .ok net) :
    ((loadNetwork (Host.inMemory codec) ⟨none, none⟩).run.run tree).1 = .ok net := by
  obtain ⟨hvalid, -⟩ := Network.build_eq_ok h
  have hsettled {α : Type} (a : α) :
      (settled (.ok a) : ExceptT Fault (StateM FileTree) α) = pure a := rfl
  unfold loadNetwork loadConfig
  simp only [pure_bind, hvalid, hsettled, h]
  rfl

/-- Two files are read from the directory that the frames are written into, and none of the frames
is written over them. -/
theorem sequence_keeps_frames_in_place : ∃ last : FileTree,
    (runProgram (Host.inMemory .builtin) (inPlace "2")).run (pixels "0.png" "1.png")
      = (⟨0, "", "wrote 3 frames to d\n"⟩, last) ∧
    last.image? .builtin (framePath "d" 0) = some red ∧
    last.image? .builtin (framePath "d" 2) = some blue := by
  obtain ⟨net, hbuild⟩ := exists_eq_ok_of_isOk
    (show (Network.build {}).isOk = true by decide +kernel)
  obtain ⟨first, second, rest, d⟩ := Network.isDefault_of_build rfl hbuild
  obtain ⟨-, hconfig, -⟩ := Network.build_eq_ok hbuild
  obtain ⟨middle, hmiddle, hshape⟩ := d.estimate_size Nat.one_pos Nat.one_pos (by decide)
    (by decide) (by rw [hconfig]; decide) (by rw [hconfig]; decide)
    (show (Picture.ofImage red).batch.shape = _ from rfl)
    (show (Picture.ofImage blue).batch.shape = _ from rfl)
  have hframes : interpolateSequence ([("0.png", red), ("1.png", blue)].map fun e => .ofImage e.2)
      2 net.estimate = .ok [.ofImage red, middle, .ofImage blue] := by
    refine (interpolateSequence_eq_refined _ 1).trans ?_
    simp only [refined, betweenAll, between, List.map_cons, List.map_nil, hmiddle]
    rfl
  have hreads : Invocation.read (inPlace "2")
      = .ok ⟨"warn", .sequence "d" "d" 2 ⟨none, none⟩⟩ := by decide +kernel
  have hlogs : LogFilter.check "warn" = .ok () := by decide +kernel
  have hholds : HoldsFrames .builtin (pixels "0.png" "1.png") "d"
      [("0.png", red), ("1.png", blue)] :=
    ⟨⟨["0.png", "1.png"], by decide +kernel, .refl _⟩, by decide +kernel, by decide +kernel,
      by simp [dot_isStorable, red, blue]⟩
  have htakes : TakesFrames (pixels "0.png" "1.png") "d" ((2 - 1) * 2 + 1)
      (pixels "0.png" "1.png") := takesFrames_of_write (by decide +kernel) (by decide +kernel)
  have hinTime : ReadInTime (pixels "0.png" "1.png") "d" "d" 2
      [("0.png", red), ("1.png", blue)] := by
    intro i hi j hne hj
    have hi : i < 2 := hi
    obtain rfl : i = 1 := by omega
    obtain rfl : j = 0 := by omega
    show (pixels "0.png" "1.png").place? (framePath "d" 0)
      ≠ (pixels "0.png" "1.png").place? (Path.join "d" "1.png")
    decide +kernel
  have hlossless : ∀ frame ∈ [.ofImage red, middle, .ofImage blue], ∀ image : Image,
      frame.toImage = .ok image →
        ImageCodec.builtin.decode "png" (ImageCodec.builtin.encode image) = some image := by
    intro frame hframe image himage
    have hsize : frame.width = 1 ∧ frame.height = 1 := by
      simp only [List.mem_cons, List.not_mem_nil, or_false] at hframe
      rcases hframe with rfl | rfl | rfl
      · exact ⟨rfl, rfl⟩
      · exact ⟨congrArg Shape.width hshape, congrArg Shape.height hshape⟩
      · exact ⟨rfl, rfl⟩
    have h := Picture.toImage_eq_ok himage
    have hwidth : image.width = 1 := h.width.1.trans hsize.1
    have hheight : image.height = 1 := h.height.1.trans hsize.2
    refine ImageCodec.builtin_decode_encode ?_ ?_
    · rw [Image.isEmpty, hwidth, hheight]
      rfl
    · rw [hwidth, hheight]
      decide
  obtain ⟨last, hrun, -, -, -, hkept, -⟩ := sequence_keeps_frames hreads hlogs
    (loadNetwork_default hbuild) hholds (List.cons_ne_nil _ _) rfl hframes htakes hinTime hlossless
  exact ⟨last, hrun, hkept 0 (by decide), hkept 1 (by decide)⟩

/-- What the program leaves behind if it is to copy the frames of a directory into that directory
itself, with no frames between them. -/
def copied (tree : FileTree) : Outcome × FileTree :=
  (runProgram (Host.inMemory .builtin) (inPlace "1")).run tree

/-- Frames are read one at a time: if the second one lies where the first one is written to, it is
written over before it is read. And no frame is written where a directory is in the way, or if it
has no pixels. -/
theorem sequence_loses_frames :
    (HoldsFrames .builtin (pixels "0.png" "000000.png") "d" [("0.png", red), ("000000.png", blue)] ∧
      TakesFrames (pixels "0.png" "000000.png") "d" 2 (pixels "0.png" "000000.png") ∧
      (copied (pixels "0.png" "000000.png")).1 = ⟨0, "", "wrote 2 frames to d\n"⟩ ∧
      (copied (pixels "0.png" "000000.png")).2.image? .builtin (framePath "d" (1 * 1)) = some red ∧
      red ≠ blue) ∧
    (HoldsFrames .builtin (directoryOf [("0.png", fileOf red), ("000000.png", .directory)]) "d"
        [("0.png", red)] ∧
      (copied (directoryOf [("0.png", fileOf red), ("000000.png", .directory)])).1.status = 1) ∧
    ((directoryOf [("0.ppm", .file "P3 0 1 255 ".toUTF8)]).image? .builtin (Path.join "d" "0.ppm")
        = some ⟨0, 1, #v[]⟩ ∧
      (copied (directoryOf [("0.ppm", .file "P3 0 1 255 ".toUTF8)])).1.status = 1) := by
  have hcopied : (copied (pixels "0.png" "000000.png")).1 = ⟨0, "", "wrote 2 frames to d\n"⟩ ∧
      (copied (pixels "0.png" "000000.png")).2.image? .builtin (framePath "d" (1 * 1)) = some red ∧
      (copied (directoryOf [("0.png", fileOf red), ("000000.png", .directory)])).1.status = 1 ∧
      (copied (directoryOf [("0.ppm", .file "P3 0 1 255 ".toUTF8)])).1.status = 1 := by
    unfold copied runProgram Command.run runSequence listFrames
    simp only [mergeSort_names]
    decide +kernel
  have hpixels : HoldsFrames .builtin (pixels "0.png" "000000.png") "d"
      [("0.png", red), ("000000.png", blue)] :=
    ⟨⟨["0.png", "000000.png"], by decide +kernel, .refl _⟩, by decide +kernel, by decide +kernel,
      by simp [dot_isStorable, red, blue]⟩
  have hblocked : HoldsFrames .builtin
      (directoryOf [("0.png", fileOf red), ("000000.png", .directory)]) "d" [("0.png", red)] :=
    ⟨⟨["0.png"], by decide +kernel, .refl _⟩, by decide +kernel, by decide +kernel,
      by simp [dot_isStorable, red]⟩
  have hempty : (directoryOf [("0.ppm", .file "P3 0 1 255 ".toUTF8)]).image? .builtin
      (Path.join "d" "0.ppm") = some ⟨0, 1, #v[]⟩ := by decide +kernel
  exact ⟨⟨hpixels, takesFrames_of_write (by decide +kernel) (by decide +kernel), hcopied.1,
    hcopied.2.1, by decide⟩, ⟨hblocked, hcopied.2.2.1⟩, hempty, hcopied.2.2.2⟩

end Command

end Midframe
