import Midframe.Proofs.Interpolation.Course
import Midframe.Proofs.Outcome

/-!
# The calls of a stream

A stream calls back to whoever raises its frame rate: for the next frame, for the frame halfway
between two, and with every frame that is done. `Caller` holds these actions over a state of the
caller's own, so that an answer may depend on everything that happened before. `Caller.run` lets a
stream run and records every call with its answer, the call that finds no further frame included.
What is proved of whole runs is carried by relations on recorded actions: `Performs` says which
events an action adds if no call fails, `Follows` compares it with an action that gives the same
answers wherever they are no faults, and `FailsLike` with one that only goes on differently.
-/

namespace Midframe

/-- A call of a stream. -/
inductive Call (τ : Type)
  /-- For the next frame, if there is one. -/
  | pull
  /-- For the frame halfway between two. -/
  | middle (left right : τ)
  /-- To hand on a frame. -/
  | emit (frame : τ)
deriving DecidableEq, Repr

/-- A call of a stream and its answer. -/
inductive Event (τ : Type)
  /-- There is no further frame, or it is read. -/
  | pull (answer : Option (Except Fault τ))
  /-- The frame halfway between two is made. -/
  | middle (left right : τ) (answer : Except Fault τ)
  /-- A frame is handed on. -/
  | emit (frame : τ) (answer : Except Fault Unit)

namespace Event

variable {τ : Type}

/-- The call without its answer. -/
def call : Event τ → Call τ
  | pull _ => .pull
  | middle left right _ => .middle left right
  | emit frame _ => .emit frame

/-- The fault that the call ended with, if it failed. -/
def fault? : Event τ → Option Fault
  | pull answer => answer.bind Midframe.fault?
  | middle _ _ answer => Midframe.fault? answer
  | emit _ answer => Midframe.fault? answer

end Event

section

variable {τ : Type} (calls calls' : List (Call τ))

/-- The number of calls for a next frame. -/
def pulls (calls : List (Call τ)) : Nat :=
  calls.countP fun
    | .pull => true
    | _ => false

/-- The frames handed on. -/
def emitted (calls : List (Call τ)) : List τ :=
  calls.filterMap fun
    | .emit frame => some frame
    | _ => none

@[simp] theorem pulls_nil : pulls ([] : List (Call τ)) = 0 := rfl

@[simp] theorem pulls_cons_pull : pulls (.pull :: calls) = pulls calls + 1 :=
  List.countP_cons_of_pos rfl

@[simp] theorem pulls_cons_middle (left right : τ) :
    pulls (.middle left right :: calls) = pulls calls :=
  List.countP_cons_of_neg Bool.false_ne_true

@[simp] theorem pulls_cons_emit (frame : τ) : pulls (.emit frame :: calls) = pulls calls :=
  List.countP_cons_of_neg Bool.false_ne_true

@[simp] theorem pulls_append : pulls (calls ++ calls') = pulls calls + pulls calls' :=
  List.countP_append

@[simp] theorem emitted_nil : emitted ([] : List (Call τ)) = [] := rfl

@[simp] theorem emitted_cons_pull : emitted (.pull :: calls) = emitted calls := rfl

@[simp] theorem emitted_cons_middle (left right : τ) :
    emitted (.middle left right :: calls) = emitted calls := rfl

@[simp] theorem emitted_cons_emit (frame : τ) :
    emitted (.emit frame :: calls) = frame :: emitted calls := rfl

@[simp] theorem emitted_append : emitted (calls ++ calls') = emitted calls ++ emitted calls' :=
  List.filterMap_append

end

/-! ## Recorded actions -/

/-- An action that also records its calls. -/
abbrev Recording (σ τ α : Type) : Type := ExceptT Fault (StateM (σ × List (Event τ))) α

namespace Recording

variable {σ τ α β : Type}

/-- What an action gives, the state it leaves, and all events so far. -/
def outcome (x : Recording σ τ α) (state : σ) (events : List (Event τ)) :
    Except Fault α × σ × List (Event τ) :=
  x.run.run (state, events)

/-- An action that counts as one call. -/
def ofCall (event : Except Fault α → Event τ) (action : ExceptT Fault (StateM σ) α) :
    Recording σ τ α :=
  ExceptT.mk fun (state, events) =>
    let (answer, state) := action.run.run state
    (answer, state, events ++ [event answer])

/-- The call that finds no further frame. -/
def ofEnd (finish : StateM σ Unit) : StateM (σ × List (Event τ)) Unit := fun (state, events) =>
  ((), (finish.run state).2, events ++ [.pull none])

theorem outcome_bind (x : Recording σ τ α) (f : α → Recording σ τ β) (state : σ)
    (events : List (Event τ)) :
    (x >>= f).outcome state events = match x.outcome state events with
      | (.ok a, state, events) => (f a).outcome state events
      | (.error e, state, events) => (.error e, state, events) := by
  show (match x (state, events) with
    | (a, s) => ExceptT.bindCont f a s) = match x (state, events) with
      | (.ok a, state, events) => f a (state, events)
      | (.error e, state, events) => (.error e, state, events)
  obtain ⟨answer, state', events'⟩ := x (state, events)
  cases answer with
  | ok a => rfl
  | error e => rfl

/-- The action succeeds, and adds events as described. -/
def Performs (x : Recording σ τ α) (P : α → List (Event τ) → Prop) : Prop :=
  ∀ state events, ∃ a state' new, x.outcome state events = (.ok a, state', events ++ new) ∧ P a new

namespace Performs

variable {x : Recording σ τ α} {f : α → Recording σ τ β} {P P' : α → List (Event τ) → Prop}
  {Q : β → List (Event τ) → Prop}

theorem pure {a : α} (h : P a []) : Performs (Pure.pure a : Recording σ τ α) P := by
  intro state events
  refine ⟨a, state, [], ?_, h⟩
  rw [List.append_nil]
  rfl

theorem bind (hx : Performs x P)
    (hf : ∀ a new, P a new → Performs (f a) fun b rest => Q b (new ++ rest)) :
    Performs (x >>= f) Q := by
  intro state events
  obtain ⟨a, state', new, hrun, hnew⟩ := hx state events
  obtain ⟨b, state'', rest, hrun', hrest⟩ := hf a new hnew state' (events ++ new)
  refine ⟨b, state'', new ++ rest, ?_, hrest⟩
  rw [outcome_bind, hrun]
  simp only [hrun', List.append_assoc]

theorem mono (hx : Performs x P) (h : ∀ a new, P a new → P' a new) : Performs x P' := by
  intro state events
  obtain ⟨a, state', new, hrun, hnew⟩ := hx state events
  exact ⟨a, state', new, hrun, h a new hnew⟩

end Performs

/-- How an action that may fail ends, compared with one that does not fail where it does: in the
same way, or with the fault of its last call, which the other one gets over. -/
inductive Tracks (events : List (Event τ)) :
    Except Fault α × σ × List (Event τ) → Except Fault α × σ × List (Event τ) → Prop
  /-- No call fails. -/
  | same (a : α) (state : σ) (new : List (Event τ)) (quiet : ∀ e ∈ new, e.fault? = none) :
      Tracks events (.ok a, state, events ++ new) (.ok a, state, events ++ new)
  /-- A call fails, and nothing is called any more. -/
  | stopped {fault : Fault} {before behind : List (Event τ)} {last mended : Event τ}
      {state state' : σ} {answer : Except Fault α} (quiet : ∀ e ∈ before, e.fault? = none)
      (failing : last.fault? = some fault) (call : mended.call = last.call) :
      Tracks events (.error fault, state, events ++ (before ++ [last]))
        (answer, state', events ++ (before ++ mended :: behind))

/-- Wherever the actions start, the first one tracks the second one. -/
def Follows (x y : Recording σ τ α) : Prop :=
  ∀ state events, Tracks events (x.outcome state events) (y.outcome state events)

namespace Follows

variable {x y : Recording σ τ α} {f g : α → Recording σ τ β}

theorem pure (a : α) : Follows (Pure.pure a : Recording σ τ α) (Pure.pure a) := by
  intro state events
  have h := @Tracks.same _ _ _ events a state [] nofun
  rwa [List.append_nil] at h

/-- What the second action adds to the events. -/
theorem exists_append (h : Follows x y) (state : σ) (events : List (Event τ)) :
    ∃ answer state' new, y.outcome state events = (answer, state', events ++ new) := by
  have hxy := h state events
  generalize x.outcome state events = rx at hxy
  generalize y.outcome state events = ry at hxy
  cases hxy with
  | same a state' new => exact ⟨_, _, _, rfl⟩
  | stopped => exact ⟨_, _, _, rfl⟩

theorem bind (hxy : Follows x y) (hfg : ∀ a, Follows (f a) (g a)) :
    Follows (x >>= f) (y >>= g) := by
  intro state events
  have h := hxy state events
  rw [outcome_bind, outcome_bind]
  generalize x.outcome state events = rx at h
  generalize y.outcome state events = ry at h
  cases h with
  | same a state' new quiet =>
    have h' := hfg a state' (events ++ new)
    simp only
    generalize (f a).outcome state' (events ++ new) = rf at h'
    generalize (g a).outcome state' (events ++ new) = rg at h'
    cases h' with
    | same b state'' new' quiet' =>
      rw [List.append_assoc]
      refine .same b state'' _ fun e he => ?_
      exact (List.mem_append.mp he).elim (quiet e) (quiet' e)
    | @stopped fault before behind last mended _ _ _ quiet' failing call =>
      rw [List.append_assoc, List.append_assoc, ← List.append_assoc new,
        ← List.append_assoc new before]
      refine .stopped (fun e he => ?_) failing call
      exact (List.mem_append.mp he).elim (quiet e) (quiet' e)
  | @stopped fault before behind last mended _ state' answer quiet failing call =>
    cases answer with
    | error e => exact .stopped quiet failing call
    | ok a =>
      -- The second action goes on, and what it adds stands behind the call that failed.
      obtain ⟨answer, state'', new, hg⟩ :=
        (hfg a).exists_append state' (events ++ (before ++ mended :: behind))
      simp only [hg]
      rw [List.append_assoc, List.append_assoc, List.cons_append]
      exact .stopped quiet failing call

theorem forM {l : List α} {f g : α → Recording σ τ Unit} (hfg : ∀ a, Follows (f a) (g a)) :
    Follows (l.forM f) (l.forM g) := by
  induction l with
  | nil => exact pure ()
  | cons a l ih =>
    simp only [List.forM_eq_forM, List.forM_cons] at ih ⊢
    exact (hfg a).bind fun _ => ih

end Follows

/-- Where the first action fails, the second one does the same. -/
def FailsLike (x y : Recording σ τ α) : Prop :=
  ∀ state events fault state' events', x.outcome state events = (.error fault, state', events') →
    y.outcome state events = (.error fault, state', events')

theorem Performs.failsLike {x y : Recording σ τ α} {P : α → List (Event τ) → Prop}
    (hx : Performs x P) : FailsLike x y := by
  intro state events fault state' events' hfault
  obtain ⟨a, left, new, hrun, -⟩ := hx state events
  rw [hrun] at hfault
  cases hfault

/-- Two actions that start in the same way fail there in the same way. -/
theorem FailsLike.bind {x : Recording σ τ α} {f g : α → Recording σ τ β}
    (hfg : ∀ a, FailsLike (f a) (g a)) : FailsLike (x >>= f) (x >>= g) := by
  intro state events fault state' events' hfault
  rw [outcome_bind] at hfault ⊢
  generalize x.outcome state events = start at hfault ⊢
  obtain ⟨e | a, left, before⟩ := start
  · exact hfault
  · exact hfg a left before fault state' events' hfault

/-! ## Single calls -/

/-- The action succeeds in every state. -/
def Succeeds (action : ExceptT Fault (StateM σ) α) : Prop :=
  ∀ state, ∃ a state', action.run.run state = (.ok a, state')

/-- Where the first action succeeds, the second one does the same. -/
def Mends (action mended : ExceptT Fault (StateM σ) α) : Prop :=
  ∀ state a state', action.run.run state = (.ok a, state') →
    mended.run.run state = (.ok a, state')

/-- An action that gives an answer of its own wherever another one fails. -/
def answering (answer : α) (action : ExceptT Fault (StateM σ) α) : ExceptT Fault (StateM σ) α :=
  tryCatch action fun _ => pure answer

theorem run_answering (answer : α) (action : ExceptT Fault (StateM σ) α) (state : σ) :
    (answering answer action).run.run state = match action.run.run state with
      | (.ok a, state) => (.ok a, state)
      | (.error _, state) => (.ok answer, state) := by
  rw [answering, ExceptT.run_tryCatch, StateT.run_bind]
  obtain ⟨e | a, state'⟩ := action.run.run state
  · rfl
  · rfl

theorem succeeds_answering (answer : α) (action : ExceptT Fault (StateM σ) α) :
    Succeeds (answering answer action) := by
  intro state
  rw [run_answering]
  obtain ⟨e | a, state'⟩ := action.run.run state
  · exact ⟨answer, state', rfl⟩
  · exact ⟨a, state', rfl⟩

theorem mends_answering (answer : α) (action : ExceptT Fault (StateM σ) α) :
    Mends action (answering answer action) := by
  intro state a state' hrun
  rw [run_answering, hrun]

variable {event : Except Fault α → Event τ} {action mended : ExceptT Fault (StateM σ) α}

theorem outcome_ofCall (state : σ) (events : List (Event τ)) :
    (ofCall event action).outcome state events
      = ((action.run.run state).1, (action.run.run state).2,
        events ++ [event (action.run.run state).1]) := rfl

theorem Succeeds.performs (h : Succeeds action) :
    Performs (ofCall event action) fun a new => new = [event (.ok a)] := by
  intro state events
  obtain ⟨a, state', hrun⟩ := h state
  exact ⟨a, state', _, by rw [outcome_ofCall, hrun], rfl⟩

theorem Mends.follows (h : Mends action mended)
    (hfault : ∀ answer, (event answer).fault? = Midframe.fault? answer)
    (hcall : ∀ answer answer', (event answer).call = (event answer').call) :
    Follows (ofCall event action) (ofCall event mended) := by
  intro state events
  rw [outcome_ofCall, outcome_ofCall]
  cases hrun : action.run.run state with
  | mk answer state' =>
    cases answer with
    | ok a =>
      rw [h state a state' hrun]
      refine .same a state' _ fun e he => ?_
      rw [List.mem_singleton.mp he, hfault]
      rfl
    | error fault => exact @Tracks.stopped _ _ _ _ _ [] [] _ _ _ _ _ nofun (hfault _) (hcall _ _)

theorem performs_ofEnd (finish : StateM σ Unit) :
    Performs (ExceptT.lift (ofEnd finish) : Recording σ τ Unit)
      fun _ new => new = [.pull none] :=
  fun _ _ => ⟨(), _, _, rfl, rfl⟩

theorem follows_ofEnd (finish : StateM σ Unit) :
    Follows (ExceptT.lift (ofEnd finish) : Recording σ τ Unit) (ExceptT.lift (ofEnd finish)) := by
  intro state events
  refine .same () _ _ fun e he => ?_
  rw [List.mem_singleton.mp he]
  rfl

/-- The end of a stream never fails. -/
theorem failsLike_ofEnd (finish : StateM σ Unit) (a : α) (y : Recording σ τ α) :
    FailsLike (ExceptT.lift (ofEnd finish) >>= fun _ => pure a) y := by
  have hend : Performs (ExceptT.lift (ofEnd finish) >>= fun _ => pure a : Recording σ τ α)
      fun _ _ => True := (performs_ofEnd finish).bind fun _ _ _ => .pure trivial
  exact hend.failsLike

end Recording

/-! ## Callers -/

/-- The actions of a caller, over a state of its own. -/
structure Caller (σ τ : Type) where
  /-- The frames of the stream are read one after the other. -/
  reads : List (ExceptT Fault (StateM σ) τ)
  /-- There is no further frame. -/
  finish : StateM σ Unit
  /-- The frame halfway between two is made. -/
  midpoint : τ → τ → ExceptT Fault (StateM σ) τ
  /-- A frame is handed on. -/
  hand : τ → ExceptT Fault (StateM σ) Unit

/-- What a stream gives, the state in which it leaves its caller, and all of its calls. -/
structure Run (σ τ : Type) where
  /-- The number of frames handed on, or the fault that ended the stream. -/
  outcome : Except Fault Nat
  /-- The state of the caller. -/
  state : σ
  /-- The calls and their answers, in order. -/
  events : List (Event τ)

namespace Run

variable {σ τ : Type}

/-- The calls, in order. -/
def calls (r : Run σ τ) : List (Call τ) := r.events.map Event.call

end Run

namespace Caller

open Recording

variable {σ τ : Type}

/-- The recorded stream of a caller. -/
def stream (c : Caller σ τ) (factor : Nat) : Recording σ τ Nat :=
  interpolateStream (c.reads.map (ofCall fun answer => .pull (some answer))) factor
    (fun left right => ofCall (.middle left right) (c.midpoint left right))
    (fun frame => ofCall (.emit frame) (c.hand frame)) (ofEnd c.finish)

/-- The stream of a caller in a state, whose frame rate is raised by a factor. -/
def run (c : Caller σ τ) (factor : Nat) (state : σ) : Run σ τ :=
  let (outcome, state, events) := (c.stream factor).outcome state []
  ⟨outcome, state, events⟩

/-- No call ever fails. -/
structure NeverFails (c : Caller σ τ) : Prop where
  /-- All frames can be read. -/
  reads : ∀ read ∈ c.reads, Succeeds read
  /-- Every frame in the middle can be made. -/
  midpoint : ∀ left right, Succeeds (c.midpoint left right)
  /-- Every frame can be handed on. -/
  hand : ∀ frame, Succeeds (c.hand frame)

/-- Another caller gives the same answers wherever they are no faults. -/
structure IsMendedBy (c mended : Caller σ τ) : Prop where
  /-- The stream has as many frames, and those that can be read are the same. -/
  reads : List.Forall₂ Mends c.reads mended.reads
  /-- The end of the stream is found in the same way. -/
  finish : c.finish = mended.finish
  /-- The frames in the middle that can be made are the same. -/
  midpoint : ∀ left right, Mends (c.midpoint left right) (mended.midpoint left right)
  /-- What can be handed on is handed on in the same way. -/
  hand : ∀ frame, Mends (c.hand frame) (mended.hand frame)

end Caller

end Midframe
