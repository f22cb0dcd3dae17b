import Midframe.Command.Run

/-!
# Programs on related hosts

The program only uses a host through its actions. So if the actions of two hosts are related, in a
way that chains of actions keep, then so is what the program does on them. What a command only reads
can be related on its own. One host that differs from another only by what it notes is
`Host.recorded`, which keeps the paths that files are written to: the program does the same on it.
-/

namespace Midframe

/-- A relation between the actions of two monads that chains keep. -/
structure Likeness (m n : Type → Type) [Monad m] [Monad n] where
  /-- The two actions are related. -/
  Alike {α : Type} : m α → n α → Prop
  /-- So are actions that do nothing. -/
  pure {α : Type} (a : α) : Alike (Pure.pure a) (Pure.pure a)
  /-- So are two actions one after the other. -/
  bind {α β : Type} {x : m α} {y : n α} {f : α → m β} {g : α → n β} :
    Alike x y → (∀ a, Alike (f a) (g a)) → Alike (x >>= f) (y >>= g)

namespace Likeness

variable {m n : Type → Type} [Monad m] [Monad n] (R : Likeness m n)

/-- Actions that may fail are related by their outcomes. -/
def except : Likeness (ExceptT Fault m) (ExceptT Fault n) where
  Alike x y := R.Alike x.run y.run
  pure a := R.pure (Except.ok a)
  bind h hf := R.bind h fun
    | .ok a => hf a
    | .error e => R.pure (Except.error e)

/-- Actions that count are related if they are for every count. -/
def counting : Likeness (StateT Nat m) (StateT Nat n) where
  Alike x y := ∀ count, R.Alike (x.run count) (y.run count)
  pure a := fun count => R.pure (a, count)
  bind h hf := fun count => R.bind (h count) fun (a, count) => hf a count

section Chains

variable {R} {α β : Type}

theorem forM {f : α → m Unit} {g : α → n Unit} (h : ∀ a, R.Alike (f a) (g a)) (list : List α) :
    R.Alike (list.forM f) (list.forM g) := by
  induction list with
  | nil => exact R.pure ()
  | cons a rest ih => exact R.bind (h a) fun _ => ih

theorem foldlM {f : β → α → m β} {g : β → α → n β} (h : ∀ b a, R.Alike (f b a) (g b a))
    (list : List α) (b : β) : R.Alike (list.foldlM f b) (list.foldlM g b) := by
  induction list generalizing b with
  | nil => exact R.pure b
  | cons a rest ih =>
    rw [List.foldlM_cons, List.foldlM_cons]
    exact R.bind (h b a) fun b => ih b

theorem throw (e : Fault) :
    R.except.Alike (α := α) (MonadExcept.throw e) (MonadExcept.throw e) := R.pure (Except.error e)

theorem settled (e : Except Fault α) :
    R.except.Alike (Midframe.settled e) (Midframe.settled e) := R.pure e

variable [LawfulMonad m] [LawfulMonad n]

theorem map {x : m α} {y : n α} (h : R.Alike x y) (f : α → β) :
    R.Alike (f <$> x) (f <$> y) := by
  rw [map_eq_pure_bind, map_eq_pure_bind]
  exact R.bind h fun a => R.pure (f a)

theorem lift {x : m α} {y : n α} (h : R.Alike x y) :
    R.except.Alike (ExceptT.lift x) (ExceptT.lift y) := map h Except.ok

end Chains

/-! ## Streams -/

section Streams

variable {R} {τ ι : Type}
  {midpoint : τ → τ → ExceptT Fault m τ} {midpoint' : τ → τ → ExceptT Fault n τ}
  {hand : τ → ExceptT Fault m Unit} {hand' : τ → ExceptT Fault n Unit}
  {read : ι → ExceptT Fault m τ} {read' : ι → ExceptT Fault n τ}

theorem fill (hmidpoint : ∀ a b, R.except.Alike (midpoint a b) (midpoint' a b))
    (order : List MidpointStep) (factor : Nat) (left right : τ) :
    R.except.Alike (Interval.fill midpoint order factor left right)
      (Interval.fill midpoint' order factor left right) := by
  refine foldlM (fun slots s => ?_) order _
  unfold Interval.step
  split
  · exact R.except.bind (hmidpoint _ _) fun _ => R.except.pure _
  · exact throw _

theorem emit (hhand : ∀ a, R.except.Alike (hand a) (hand' a)) (slots : Array (Option τ))
    (factor interval : Nat) :
    R.except.Alike (Interval.emit hand slots factor interval)
      (Interval.emit hand' slots factor interval) := by
  refine forM (fun i => R.except.bind ?_ hhand) _
  unfold Interval.frame
  split
  · exact R.except.pure _
  · exact throw _

variable [LawfulMonad m] [LawfulMonad n]
  (hmidpoint : ∀ a b, R.except.Alike (midpoint a b) (midpoint' a b))
  (hhand : ∀ a, R.except.Alike (hand a) (hand' a))
  (hread : ∀ i, R.except.Alike (read i) (read' i))

include hmidpoint hhand hread

theorem interpolateFrom {order : List MidpointStep} {factor interval emitted : Nat} {left : τ}
    (list : List ι) :
    R.except.Alike
      (Midframe.interpolateFrom midpoint hand (Pure.pure ()) order factor interval emitted left
        (list.map read))
      (Midframe.interpolateFrom midpoint' hand' (Pure.pure ()) order factor interval emitted left
        (list.map read')) := by
  induction list generalizing interval emitted left with
  | nil => exact R.except.bind (lift (R.pure ())) fun _ => R.except.pure emitted
  | cons i rest ih =>
    simp only [List.map_cons, Midframe.interpolateFrom]
    refine R.except.bind (hread i) fun right => ?_
    refine R.except.bind (fill hmidpoint order factor left right) fun slots => ?_
    refine R.except.bind (emit hhand slots factor interval) fun _ => ?_
    split
    · exact ih
    · exact throw _

theorem interpolateStream (factor : Nat) (list : List ι) :
    R.except.Alike (Midframe.interpolateStream (list.map read) factor midpoint hand)
      (Midframe.interpolateStream (list.map read') factor midpoint' hand') := by
  unfold Midframe.interpolateStream
  split
  · exact throw _
  · refine R.except.bind (settled _) fun order => ?_
    cases list with
    | nil => exact R.except.bind (lift (R.pure ())) fun _ => R.except.pure 0
    | cons i rest =>
      refine R.except.bind (hread i) fun first => R.except.bind (hhand first) fun _ => ?_
      exact interpolateFrom hmidpoint hhand hread rest

end Streams

/-! ## Commands -/

/-- What two hosts read is related. -/
structure Reads (host : Host m) (host' : Host n) : Prop where
  /-- Texts. -/
  readText (path : String) : R.Alike (host.readText path) (host'.readText path)
  /-- Images. -/
  readImage (path : String) : R.Alike (host.readImage path) (host'.readImage path)
  /-- Directories. -/
  listFiles (path : String) : R.Alike (host.listFiles path) (host'.listFiles path)

/-- All that two hosts do is related. -/
structure Hosts (host : Host m) (host' : Host n) : Prop extends R.Reads host host' where
  /-- Directories are made. -/
  makeDirectories (path : String) :
    R.Alike (host.makeDirectories path) (host'.makeDirectories path)
  /-- Texts are written. -/
  writeText (path contents : String) :
    R.Alike (host.writeText path contents) (host'.writeText path contents)
  /-- Images are written. -/
  writeImage (path : String) (contents : Image) :
    R.Alike (host.writeImage path contents) (host'.writeImage path contents)

section Commands

variable {R} [LawfulMonad m] [LawfulMonad n] {host : Host m} {host' : Host n}

open Command

namespace Reads

variable (h : R.Reads host host')

include h

theorem loadConfig (path : Option String) :
    R.except.Alike (Command.loadConfig host path) (Command.loadConfig host' path) := by
  have hvalid (config : Config) : R.except.Alike
      (do Midframe.settled config.validate; return config)
      (do Midframe.settled config.validate; return config) :=
    R.except.bind (settled _) fun _ => R.except.pure config
  unfold Command.loadConfig
  cases path with
  | none => exact R.except.bind (R.except.pure _) hvalid
  | some path =>
    refine R.except.bind (lift (h.readText path)) fun read => ?_
    dsimp only
    split
    · refine R.except.bind (R.except.pure _) fun contents => ?_
      split
      · exact R.except.bind (R.except.pure _) hvalid
      · exact R.except.bind (throw _) hvalid
    · refine R.except.bind (throw _) fun contents => ?_
      split
      · exact R.except.bind (R.except.pure _) hvalid
      · exact R.except.bind (throw _) hvalid

theorem loadStore (path : String) :
    R.except.Alike (Command.loadStore host path) (Command.loadStore host' path) := by
  refine R.except.bind (lift (h.readText path)) ?_
  rintro (e | _ | contents)
  · exact throw _
  · exact throw _
  · exact settled _

theorem loadNetwork (files : NetworkFiles) :
    R.except.Alike (Command.loadNetwork host files) (Command.loadNetwork host' files) := by
  refine R.except.bind (h.loadConfig _) fun config => R.except.bind (settled _) fun net => ?_
  split
  · exact R.except.pure net
  · refine R.except.bind (h.loadStore _) fun store => ?_
    split
    · exact R.except.pure _
    · exact throw _

theorem readPicture (path : String) :
    R.except.Alike (Command.readPicture host path) (Command.readPicture host' path) := by
  refine R.except.bind (lift (h.readImage path)) fun image => ?_
  split
  · exact R.except.pure _
  · exact throw _

theorem listFrames (directory : String) :
    R.except.Alike (Command.listFrames host directory) (Command.listFrames host' directory) := by
  refine R.except.bind (lift (h.listFiles directory)) fun names => ?_
  split
  · exact throw _
  · split
    · exact throw _
    · exact R.except.pure _

end Reads

theorem orFail {x : m Bool} {y : n Bool} (h : R.Alike x y) (context : String) :
    R.except.Alike (Command.orFail x context) (Command.orFail y context) := by
  refine R.except.bind (lift h) fun done => ?_
  split
  · exact R.except.pure ()
  · exact throw _

omit [LawfulMonad m] [LawfulMonad n] in
/-- The order of the midpoints needs no host. -/
theorem runSchedule (factor : Nat) :
    R.except.Alike (Command.runSchedule factor) (Command.runSchedule factor) := by
  have hsteps : R.except.Alike
      (do
        let steps ← Midframe.settled (interpolationOrder factor 0)
        return { output := String.join (steps.map stepLine) } : ExceptT Fault m Report)
      (do
        let steps ← Midframe.settled (interpolationOrder factor 0)
        return { output := String.join (steps.map stepLine) }) :=
    R.except.bind (settled _) fun steps => R.except.pure _
  unfold Command.runSchedule
  dsimp only
  split
  · exact R.except.bind (throw _) fun _ => hsteps
  · exact hsteps

omit [LawfulMonad m] [LawfulMonad n] in
/-- Actions that are related do the same to a count: nothing. -/
theorem counted {α : Type} {x : ExceptT Fault m α} {y : ExceptT Fault n α}
    (h : R.except.Alike x y) :
    R.counting.except.Alike (Command.counted x) (Command.counted y) := by
  intro count
  exact R.bind h fun outcome => R.pure (outcome, count)

namespace Hosts

variable (h : R.Hosts host host')

include h

theorem prepareParent (path : String) :
    R.except.Alike (Command.prepareParent host path) (Command.prepareParent host' path) := by
  unfold Command.prepareParent
  split
  · exact R.except.pure ()
  · split
    · exact R.except.pure ()
    · exact orFail (h.makeDirectories _) _

theorem writePicture (path : String) (picture : Picture) :
    R.except.Alike (Command.writePicture host path picture)
      (Command.writePicture host' path picture) :=
  R.except.bind (h.prepareParent path) fun _ =>
    R.except.bind (settled picture.toImage) fun image => orFail (h.writeImage path image) _

theorem writeNext (out : String) (picture : Picture) :
    R.counting.except.Alike (Command.writeNext host out picture)
      (Command.writeNext host' out picture) :=
  R.counting.except.bind (lift fun count => R.pure (count, count)) fun index =>
    R.counting.except.bind (counted (h.writePicture _ picture)) fun _ =>
      lift fun _ => R.pure ((), index + 1)

theorem run (command : Command) :
    R.except.Alike (command.run host) (command.run host') := by
  cases command with
  | plan height width files =>
    refine R.except.bind (h.loadNetwork files) fun net => ?_
    exact R.except.bind (settled _) fun plan => R.except.pure _
  | schedule factor => exact runSchedule factor
  | interpolate first second out files =>
    refine R.except.bind (h.loadNetwork files) fun net => ?_
    refine R.except.bind (h.readPicture first) fun one => ?_
    refine R.except.bind (h.readPicture second) fun two => ?_
    refine R.except.bind (settled _) fun middle => ?_
    exact R.except.bind (h.writePicture out middle) fun _ => R.except.pure _
  | sequence input out factor files =>
    refine R.except.bind (h.loadNetwork files) fun net => ?_
    refine R.except.bind (h.listFrames input) fun paths => ?_
    refine R.except.bind ?_ fun written => R.except.pure _
    have hstream := interpolateStream (fun a b => settled (R := R.counting) (net.estimate a b))
      (h.writeNext out) (fun path => counted (h.readPicture path)) factor paths
    exact R.bind (hstream 0) fun outcome => R.pure outcome.1
  | exportParameters out config =>
    refine R.except.bind (h.loadConfig config) fun config => ?_
    refine R.except.bind (settled _) fun net => ?_
    refine R.except.bind (settled _) fun store => ?_
    refine R.except.bind (h.prepareParent out) fun _ => ?_
    refine R.except.bind (lift (h.writeText out _)) fun outcome => ?_
    split
    · exact R.except.pure _
    · exact throw _

/-- On related hosts the program does related things. -/
theorem runProgram (arguments : List String) :
    R.Alike (Midframe.runProgram host arguments) (Midframe.runProgram host' arguments) := by
  unfold Midframe.runProgram
  rcases Invocation.read arguments with answer | invocation
  · rcases answer with _ | (_ | _) | _ | _ <;> exact R.pure _
  · dsimp only
    rcases LogFilter.check invocation.log with flaw | valid
    · cases flaw <;> exact R.pure _
    · refine R.bind (h.run invocation.command) fun outcome => ?_
      cases outcome <;> exact R.pure _

end Hosts

end Commands

end Likeness

/-! ## Notes of what is written -/

namespace Host

variable {m : Type → Type} [Monad m]

/-- An action that also notes a path. -/
def noting {α : Type} (path : String) (action : m α) : StateT (List String) m α := do
  modify (· ++ [path])
  StateT.lift action

/-- The same host, which also notes the paths that files are written to, one after the other. -/
def recorded (host : Host m) : Host (StateT (List String) m) where
  readText path := StateT.lift (host.readText path)
  readImage path := StateT.lift (host.readImage path)
  listFiles path := StateT.lift (host.listFiles path)
  makeDirectories path := StateT.lift (host.makeDirectories path)
  writeText path contents := noting path (host.writeText path contents)
  writeImage path contents := noting path (host.writeImage path contents)

variable [LawfulMonad m]

/-- An action that may note something, and the same one without its notes. -/
def noted (m : Type → Type) [Monad m] [LawfulMonad m] : Likeness (StateT (List String) m) m where
  Alike x y := ∀ notes, Prod.fst <$> x.run notes = y
  pure a := by
    intro notes
    simp
  bind h hf := by
    intro notes
    rw [StateT.run_bind, map_bind, ← h notes, bind_map_left]
    exact bind_congr fun (a, notes) => hf a notes

theorem noted_lift {α : Type} (x : m α) : (noted m).Alike (StateT.lift x) x := by
  intro notes
  simp

theorem noted_noting {α : Type} (path : String) (x : m α) : (noted m).Alike (noting path x) x := by
  intro notes
  simp [noting]

theorem noted_hosts (host : Host m) : (noted m).Hosts host.recorded host where
  readText _ := noted_lift _
  readImage _ := noted_lift _
  listFiles _ := noted_lift _
  makeDirectories _ := noted_lift _
  writeText _ _ := noted_noting _ _
  writeImage _ _ := noted_noting _ _

/-- An action that notes nothing, and the same one where nothing can be noted. -/
def silent (m : Type → Type) [Monad m] [LawfulMonad m] : Likeness (StateT (List String) m) m where
  Alike x y := x = StateT.lift y
  pure a := by
    refine StateT.ext fun notes => ?_
    simp
  bind h hf := by
    refine StateT.ext fun notes => ?_
    rw [h]
    simp [hf]

theorem silent_reads (host : Host m) : (silent m).Reads host.recorded host where
  readText _ := rfl
  readImage _ := rfl
  listFiles _ := rfl

/-- Noting what is written changes nothing else. -/
theorem runProgram_recorded (host : Host m) (arguments notes : List String) :
    Prod.fst <$> (runProgram host.recorded arguments).run notes = runProgram host arguments :=
  (noted_hosts host).runProgram arguments notes

end Host

end Midframe
