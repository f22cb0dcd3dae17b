import Mathlib.Data.List.Forall2
import Midframe.Proofs.Interpolation.Calls

/-!
# Where the answers come from

The answers of a run are those of its caller. Every call is answered by the action it is made to, in
the state that the calls before it have left; the frames of the stream are pulled by its reads, from
the first one on and none of them twice. `Caller.Answers` says so of a single call and
`Caller.Trace` of calls one after the other. That a run is a trace of its caller is shown for every
action a stream is made of, whether or not a call fails.
-/

namespace Midframe

open Recording

variable {σ τ α β : Type}

/-- The answers to the calls for a next frame, without the one that there is none. -/
def pulled (events : List (Event τ)) : List (Except Fault τ) :=
  events.filterMap fun
    | .pull answer => answer
    | _ => none

theorem pulled_append (events events' : List (Event τ)) :
    pulled (events ++ events') = pulled events ++ pulled events' := List.filterMap_append

/-- A read gives a frame, in whatever state its caller is. -/
def Gives (read : ExceptT Fault (StateM σ) τ) (frame : τ) : Prop :=
  ∀ state, ∃ state', read.run.run state = (.ok frame, state')

namespace Caller

/-- The reads of a stream that are left, and the state of its caller. -/
abbrev Pending (σ τ : Type) : Type := List (ExceptT Fault (StateM σ) τ) × σ

/-- A caller answers a call, and what is left then. -/
inductive Answers (c : Caller σ τ) : Pending σ τ → Event τ → Pending σ τ → Prop
  /-- The first of the reads that are left is run. -/
  | pull {read : ExceptT Fault (StateM σ) τ} {reads : List (ExceptT Fault (StateM σ) τ)}
      {state state' : σ} {answer : Except Fault τ} (h : read.run.run state = (answer, state')) :
      Answers c (read :: reads, state) (.pull (some answer)) (reads, state')
  /-- No read is left. -/
  | finish (state : σ) : Answers c ([], state) (.pull none) ([], (c.finish.run state).2)
  /-- The frame in the middle is made. -/
  | middle {reads : List (ExceptT Fault (StateM σ) τ)} {left right : τ} {state state' : σ}
      {answer : Except Fault τ} (h : (c.midpoint left right).run.run state = (answer, state')) :
      Answers c (reads, state) (.middle left right answer) (reads, state')
  /-- The frame is handed on. -/
  | emit {reads : List (ExceptT Fault (StateM σ) τ)} {frame : τ} {state state' : σ}
      {answer : Except Fault Unit} (h : (c.hand frame).run.run state = (answer, state')) :
      Answers c (reads, state) (.emit frame answer) (reads, state')

/-- A caller answers calls one after the other. -/
inductive Trace (c : Caller σ τ) : Pending σ τ → List (Event τ) → Pending σ τ → Prop
  /-- There is no call. -/
  | nil (s : Pending σ τ) : Trace c s [] s
  /-- There is a first call. -/
  | cons {s middle last : Pending σ τ} {event : Event τ} {events : List (Event τ)}
      (first : c.Answers s event middle) (rest : Trace c middle events last) :
      Trace c s (event :: events) last

variable {c : Caller σ τ}

namespace Trace

theorem single {s last : Pending σ τ} {event : Event τ} (h : c.Answers s event last) :
    c.Trace s [event] last := .cons h (.nil last)

theorem append {s middle last : Pending σ τ} {events events' : List (Event τ)}
    (h : c.Trace s events middle) (h' : c.Trace middle events' last) :
    c.Trace s (events ++ events') last := by
  induction h with
  | nil => exact h'
  | cons first _ ih => exact .cons first (ih h')

/-- The frames are those of the reads from the first one on, each of which is run once. -/
theorem exists_pulled {s last : Pending σ τ} {events : List (Event τ)}
    (h : c.Trace s events last) : ∃ front, s.1 = front ++ last.1 ∧
      List.Forall₂ (fun read answer => ∃ state state', read.run.run state = (answer, state'))
        front (pulled events) := by
  induction h with
  | nil => exact ⟨[], rfl, .nil⟩
  | cons first rest ih =>
    obtain ⟨front, hfront, hpulled⟩ := ih
    cases first with
    | pull h => exact ⟨_ :: front, congrArg _ hfront, .cons ⟨_, _, h⟩ hpulled⟩
    | finish => exact ⟨front, hfront, hpulled⟩
    | middle => exact ⟨front, hfront, hpulled⟩
    | emit => exact ⟨front, hfront, hpulled⟩

/-- If as many frames are pulled as there are reads, none of these is left. -/
theorem rest_eq_nil {s last : Pending σ τ} {events : List (Event τ)} (h : c.Trace s events last)
    (hlength : (pulled events).length = s.1.length) : last.1 = [] := by
  obtain ⟨front, hfront, hpulled⟩ := h.exists_pulled
  have hcount := hpulled.length_eq
  rw [hfront, List.length_append] at hlength
  exact List.eq_nil_of_length_eq_zero (by omega)

/-- Reads that give certain frames are answered by these. -/
theorem pulled_eq_of_gives {s : Pending σ τ} {state : σ} {events : List (Event τ)}
    (h : c.Trace s events ([], state)) {frames : List τ} (hframes : List.Forall₂ Gives s.1 frames) :
    pulled events = frames.map .ok := by
  obtain ⟨front, hfront, hpulled⟩ := h.exists_pulled
  rw [hfront, List.append_nil] at hframes
  clear h hfront
  generalize pulled events = answers at hpulled
  induction hframes generalizing answers with
  | nil =>
    cases hpulled
    rfl
  | cons hgives _ ih =>
    cases hpulled with
    | cons hanswer hrest =>
      obtain ⟨state, _, hrun⟩ := hanswer
      obtain ⟨_, hframe⟩ := hgives state
      rw [List.map_cons, ← ih _ hrest, (Prod.mk.inj (hrun.symm.trans hframe)).1]

end Trace

/-! ## Actions -/

/-- What an action adds to the events is a trace of the caller, from some reads that are left on to
some that are left then. -/
def Plays (c : Caller σ τ) (x : Recording σ τ α) (reads : List (ExceptT Fault (StateM σ) τ))
    (left : List (ExceptT Fault (StateM σ) τ) → Prop) : Prop :=
  ∀ state events, ∃ new rest, left rest ∧ (x.outcome state events).2.2 = events ++ new ∧
    c.Trace (reads, state) new (rest, (x.outcome state events).2.1)

namespace Plays

variable {x : Recording σ τ α} {f : α → Recording σ τ β}
  {reads rest : List (ExceptT Fault (StateM σ) τ)}
  {left : List (ExceptT Fault (StateM σ) τ) → Prop}

theorem pure (a : α) (h : left reads) : c.Plays (Pure.pure a) reads left := by
  intro state events
  exact ⟨[], reads, h, (List.append_nil events).symm, .nil _⟩

theorem bind (hx : c.Plays x reads (· = rest)) (h : left rest)
    (hf : ∀ a, c.Plays (f a) rest left) : c.Plays (x >>= f) reads left := by
  intro state events
  obtain ⟨new, rest, rfl, hevents, htrace⟩ := hx state events
  rw [outcome_bind]
  generalize x.outcome state events = start at hevents htrace ⊢
  obtain ⟨e | a, state', events'⟩ := start
  · exact ⟨new, rest, h, hevents, htrace⟩
  · obtain rfl : events' = events ++ new := hevents
    obtain ⟨new', last, hlast, hevents', htrace'⟩ := hf a state' (events ++ new)
    refine ⟨new ++ new', last, hlast, ?_, htrace.append htrace'⟩
    rw [← List.append_assoc]
    exact hevents'

/-- An action that counts as one call. -/
theorem ofCall {event : Except Fault α → Event τ} {action : ExceptT Fault (StateM σ) α}
    (h : ∀ state, c.Answers (reads, state) (event (action.run.run state).1)
      (rest, (action.run.run state).2)) :
    c.Plays (Recording.ofCall event action) reads (· = rest) := by
  intro state events
  exact ⟨_, rest, rfl, rfl, .single (h state)⟩

theorem pull (read : ExceptT Fault (StateM σ) τ) (reads : List (ExceptT Fault (StateM σ) τ)) :
    c.Plays (Recording.ofCall (fun answer => .pull (some answer)) read) (read :: reads)
      (· = reads) := ofCall fun _ => .pull rfl

theorem finish (a : α) : c.Plays (ExceptT.lift (ofEnd c.finish) >>= fun _ => Pure.pure a) []
    fun _ => True := by
  intro state events
  exact ⟨_, [], trivial, rfl, .single (.finish state)⟩

theorem middle (frame frame' : τ) :
    c.Plays (Recording.ofCall (.middle frame frame') (c.midpoint frame frame')) reads
      (· = reads) := ofCall fun _ => .middle rfl

theorem emit (frame : τ) :
    c.Plays (Recording.ofCall (.emit frame) (c.hand frame)) reads (· = reads) :=
  ofCall fun _ => .emit rfl

theorem make (k : Nat) (frame frame' : τ) :
    c.Plays (Bisected.make
      (fun left right => Recording.ofCall (.middle left right) (c.midpoint left right))
      k frame frame') reads (· = reads) := by
  induction k generalizing frame frame' with
  | zero => exact .pure _ rfl
  | succ k ih =>
    refine (middle frame frame').bind rfl fun between => ?_
    refine (ih frame between).bind rfl fun before => ?_
    exact (ih between frame').bind rfl fun behind => .pure _ rfl

theorem forM (frames : List τ) :
    c.Plays (frames.forM fun frame => Recording.ofCall (.emit frame) (c.hand frame)) reads
      (· = reads) := by
  induction frames with
  | nil => exact .pure () rfl
  | cons frame frames ih =>
    simp only [List.forM_eq_forM, List.forM_cons] at ih ⊢
    exact (emit frame).bind rfl fun _ => ih

theorem courseFrom (k count : Nat) (frame : τ) (reads : List (ExceptT Fault (StateM σ) τ)) :
    c.Plays (Midframe.courseFrom
      (fun left right => Recording.ofCall (.middle left right) (c.midpoint left right))
      (fun frame => Recording.ofCall (.emit frame) (c.hand frame)) (ofEnd c.finish) k count frame
      (reads.map (Recording.ofCall fun answer => .pull (some answer)))) reads fun _ => True := by
  induction reads generalizing count frame with
  | nil => exact finish count
  | cons read reads ih =>
    refine (pull read reads).bind trivial fun right => ?_
    refine (make k frame right).bind trivial fun tree => ?_
    exact (forM (tree.frames right)).bind trivial fun _ => ih (count + 2 ^ k) right

/-- The calls of a stream are answered by its caller. -/
theorem stream (c : Caller σ τ) (k : Nat) : c.Plays (c.stream (2 ^ k)) c.reads fun _ => True := by
  rw [Caller.stream, interpolateStream_eq_course]
  generalize c.reads = reads
  cases reads with
  | nil => exact finish 0
  | cons read reads =>
    refine (pull read reads).bind trivial fun first => ?_
    exact (emit first).bind trivial fun _ => courseFrom k 1 first reads

end Plays

end Caller

end Midframe
