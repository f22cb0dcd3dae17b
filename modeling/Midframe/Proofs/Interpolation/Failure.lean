import Mathlib.Data.List.Forall2
import Midframe.Proofs.Interpolation.Schedule

/-!
# Streams with faults

A stream ends with the first call that fails, and with the fault of this call. Up to there it makes
the calls that it would make if that call and all later ones succeeded. When a frame is pulled, all
intervals in front of it are handed on completely; when a frame is made, nothing of its interval is
handed on yet. This is said of the calls of a stream without faults (`Paced`), of which those of any
other stream are the first ones. What stands behind the frames of a stream that fails does not
matter to it, so that a stream may as well have no end.
-/

namespace Midframe

open Recording

variable {σ τ : Type} {k : Nat}

/-! ## How far a stream is -/

/-- Behind so many pulled and handed on frames, every call comes when it is due: a frame is pulled
when all intervals so far are handed on, and made when all but the last one are. -/
def Paced (factor : Nat) : (pulled handed : Nat) → List (Call τ) → Prop
  | _, _, [] => True
  | pulled, handed, .pull :: rest =>
    (1 ≤ pulled → handed = (pulled - 1) * factor + 1) ∧ Paced factor (pulled + 1) handed rest
  | pulled, handed, .middle _ _ :: rest =>
    (2 ≤ pulled ∧ handed = (pulled - 2) * factor + 1) ∧ Paced factor pulled handed rest
  | pulled, handed, .emit _ :: rest => Paced factor pulled (handed + 1) rest

namespace Paced

variable {factor : Nat}

theorem append_iff {pulled handed : Nat} {calls calls' : List (Call τ)} :
    Paced factor pulled handed (calls ++ calls') ↔ Paced factor pulled handed calls ∧
      Paced factor (pulled + pulls calls) (handed + (emitted calls).length) calls' := by
  induction calls generalizing pulled handed with
  | nil =>
    simp only [List.nil_append, pulls_nil, emitted_nil, List.length_nil, Nat.add_zero, Paced,
      true_and]
  | cons call rest ih =>
    cases call with
    | pull =>
      rw [List.cons_append, Paced, Paced, ih, and_assoc, pulls_cons_pull, emitted_cons_pull,
        Nat.add_right_comm, Nat.add_assoc pulled]
    | middle left right =>
      rw [List.cons_append, Paced, Paced, ih, and_assoc, and_assoc, and_assoc, pulls_cons_middle,
        emitted_cons_middle]
    | emit frame =>
      rw [List.cons_append, Paced, Paced, ih, pulls_cons_emit, emitted_cons_emit, List.length_cons,
        Nat.add_right_comm, Nat.add_assoc handed]

/-- What the first of the remaining calls says of those before it. -/
theorem pull_due {before behind : List (Call τ)}
    (h : Paced factor 0 0 (before ++ .pull :: behind)) (hpulls : 1 ≤ pulls before) :
    (emitted before).length = (pulls before - 1) * factor + 1 := by
  have hcall := (append_iff.mp h).2
  rw [Nat.zero_add, Nat.zero_add] at hcall
  exact hcall.1 hpulls

theorem middle_due {before behind : List (Call τ)} {left right : τ}
    (h : Paced factor 0 0 (before ++ .middle left right :: behind)) :
    2 ≤ pulls before ∧ (emitted before).length = (pulls before - 2) * factor + 1 := by
  have hcall := (append_iff.mp h).2
  rw [Nat.zero_add, Nat.zero_add] at hcall
  exact hcall.1

end Paced

theorem Bisected.pulls_events (t : Bisected τ k) (left right : τ) :
    pulls ((t.events left right).map Event.call) = 0 := by
  induction t generalizing left right with
  | whole => rfl
  | halves middle before behind ihBefore ihBehind =>
    rw [events, List.map_cons, Event.call, pulls_cons_middle, List.map_append, pulls_append,
      ihBefore, ihBehind]

theorem pulls_handEvents (frames : List τ) : pulls ((handEvents frames).map Event.call) = 0 := by
  induction frames with
  | nil => rfl
  | cons frame rest ih =>
    rw [handEvents, List.map_cons, List.map_cons, Event.call, pulls_cons_emit]
    exact ih

/-- While the frames of an interval are made, nothing of it is handed on. -/
theorem Bisected.paced_events (t : Bisected τ k) (left right : τ) {factor pulled handed : Nat}
    (hpulled : 2 ≤ pulled) (hhanded : handed = (pulled - 2) * factor + 1) :
    Paced factor pulled handed ((t.events left right).map Event.call) := by
  induction t generalizing left right with
  | whole => trivial
  | halves middle before behind ihBefore ihBehind =>
    refine ⟨⟨hpulled, hhanded⟩, ?_⟩
    rw [List.map_append, Paced.append_iff, before.pulls_events, before.emitted_events]
    exact ⟨ihBefore left middle, ihBehind middle right⟩

theorem paced_handEvents (frames : List τ) {factor pulled handed : Nat} :
    Paced factor pulled handed ((handEvents frames).map Event.call) := by
  induction frames generalizing handed with
  | nil => trivial
  | cons frame rest ih => exact ih

/-- Behind intervals that are handed on completely, those to come are paced, and so is the last
call. -/
theorem paced_intervalEvents (left : τ) (later : List (τ × Bisected τ k)) {pulled : Nat}
    (hpulled : 1 ≤ pulled) :
    Paced (2 ^ k) pulled ((pulled - 1) * 2 ^ k + 1)
      ((intervalEvents left later ++ [Event.pull none]).map Event.call) := by
  induction later generalizing left pulled with
  | nil => exact ⟨fun _ => rfl, trivial⟩
  | cons interval rest ih =>
    obtain ⟨right, tree⟩ := interval
    have hmade := @Bisected.paced_events _ _ tree left right (2 ^ k) (pulled + 1) _
      (Nat.succ_le_succ hpulled) rfl
    -- Handing on the interval makes up for the frame that is pulled ahead of it.
    have hnext : (pulled + 1 - 2) * 2 ^ k + 1 + 2 ^ k = (pulled + 1 - 1) * 2 ^ k + 1 := by
      obtain ⟨n, rfl⟩ : ∃ n, pulled = n + 1 := ⟨pulled - 1, by omega⟩
      simp only [Nat.add_sub_cancel, show n + 1 + 1 - 2 = n by omega]
      ring
    have hlater := @ih right (pulled + 1) (by omega)
    rw [← hnext] at hlater
    rw [intervalEvents, List.cons_append, List.append_assoc, List.append_assoc, List.map_cons,
      Event.call, Paced, List.map_append, List.map_append, Paced.append_iff, Paced.append_iff,
      tree.pulls_events, tree.emitted_events, pulls_handEvents, emitted_handEvents,
      tree.frames_length]
    exact ⟨fun _ => rfl, hmade, paced_handEvents _, hlater⟩

theorem paced_streamEvents (first : τ) (later : List (τ × Bisected τ k)) :
    Paced (2 ^ k) 0 0 ((streamEvents first later).map Event.call) := by
  have h := paced_intervalEvents first later (Nat.le_refl 1)
  rw [Nat.sub_self, Nat.zero_mul, Nat.zero_add] at h
  exact ⟨fun hpulled => absurd hpulled (Nat.not_succ_le_zero 0), h⟩

/-! ## Runs that are compared -/

namespace Caller

variable {c mended : Caller σ τ}

theorem IsMendedBy.follows_pull {read read' : ExceptT Fault (StateM σ) τ} (h : Mends read read') :
    Follows (ofCall (fun answer => .pull (some answer)) read)
      (ofCall (fun answer => .pull (some answer)) read') :=
  h.follows (fun _ => rfl) (fun _ _ => rfl)

theorem IsMendedBy.follows_make (h : c.IsMendedBy mended) (k : Nat) (left right : τ) :
    Follows
      (Bisected.make (fun left right => ofCall (.middle left right) (c.midpoint left right))
        k left right)
      (Bisected.make (fun left right => ofCall (.middle left right) (mended.midpoint left right))
        k left right) := by
  induction k generalizing left right with
  | zero => exact .pure _
  | succ k ih =>
    refine ((h.midpoint left right).follows (fun _ => rfl) (fun _ _ => rfl)).bind fun middle => ?_
    refine (ih left middle).bind fun before => ?_
    exact (ih middle right).bind fun behind => .pure _

theorem IsMendedBy.follows_hand (h : c.IsMendedBy mended) (frame : τ) :
    Follows (ofCall (.emit frame) (c.hand frame)) (ofCall (.emit frame) (mended.hand frame)) :=
  (h.hand frame).follows (fun _ => rfl) (fun _ _ => rfl)

theorem IsMendedBy.follows_courseFrom (h : c.IsMendedBy mended) (k count : Nat) (left : τ)
    {reads reads' : List (ExceptT Fault (StateM σ) τ)} (hreads : List.Forall₂ Mends reads reads') :
    Follows
      (courseFrom (fun left right => ofCall (.middle left right) (c.midpoint left right))
        (fun frame => ofCall (.emit frame) (c.hand frame)) (ofEnd c.finish) k count left
        (reads.map (ofCall fun answer => .pull (some answer))))
      (courseFrom (fun left right => ofCall (.middle left right) (mended.midpoint left right))
        (fun frame => ofCall (.emit frame) (mended.hand frame)) (ofEnd mended.finish) k count left
        (reads'.map (ofCall fun answer => .pull (some answer)))) := by
  induction hreads generalizing count left with
  | nil =>
    rw [h.finish]
    exact (follows_ofEnd _).bind fun _ => .pure _
  | cons hread _ ih =>
    refine (follows_pull hread).bind fun right => ?_
    refine (h.follows_make k left right).bind fun tree => ?_
    exact (Follows.forM h.follows_hand).bind fun _ => ih _ right

theorem IsMendedBy.follows_stream (h : c.IsMendedBy mended) (k : Nat) :
    Follows (c.stream (2 ^ k)) (mended.stream (2 ^ k)) := by
  rw [stream, stream, interpolateStream_eq_course, interpolateStream_eq_course]
  have hreads := h.reads
  revert hreads
  generalize c.reads = reads
  generalize mended.reads = reads'
  intro hreads
  cases hreads with
  | nil =>
    rw [h.finish]
    exact (follows_ofEnd _).bind fun _ => .pure _
  | cons hread hrest =>
    refine (follows_pull hread).bind fun first => ?_
    exact (h.follows_hand first).bind fun _ => h.follows_courseFrom k 1 first hrest

theorem NeverFails.paced (h : c.NeverFails) (k : Nat) (state : σ) :
    Paced (2 ^ k) 0 0 (c.run (2 ^ k) state).calls := by
  obtain ⟨total, state', new, houtcome, hnew⟩ := h.performs_stream k state []
  rw [run_eq_of_outcome houtcome, Run.calls, List.nil_append]
  rcases hnew with ⟨-, -, rfl⟩ | ⟨first, later, -, -, rfl⟩
  · exact ⟨fun hpulled => absurd hpulled (Nat.not_succ_le_zero 0), trivial⟩
  · exact paced_streamEvents first later

end Caller

/-- A stream ends with a fault of the call `last`, behind the successful calls `before`, while
`full` is the stream in which this call and all later ones succeed. -/
structure Run.StopsAt (stopped full : Run σ τ) (factor : Nat) (fault : Fault)
    (before : List (Event τ)) (last : Event τ) : Prop where
  /-- Nothing is called behind the failing call. -/
  events : stopped.events = before ++ [last]
  /-- No call in front of it fails. -/
  quiet : ∀ e ∈ before, e.fault? = none
  /-- Its fault is the one that is reported. -/
  failing : last.fault? = some fault
  /-- All calls are made that would be made otherwise, up to the failing one. -/
  calls : stopped.calls <+: full.calls
  /-- The frames handed on are the first ones of those that would be handed on otherwise. -/
  emitted : emitted (before.map Event.call) <+: Midframe.emitted full.calls
  /-- If a frame behind the first one cannot be read, all intervals in front of it are handed on. -/
  pull : last.call = .pull → 1 ≤ pulls (before.map Event.call) →
    (Midframe.emitted (before.map Event.call)).length
      = (pulls (before.map Event.call) - 1) * factor + 1
  /-- If a frame cannot be made, nothing of its interval is handed on: only the intervals in front
  of it are, as when the last frame was pulled. -/
  middle : ∀ left right, last.call = .middle left right → 2 ≤ pulls (before.map Event.call) ∧
    (Midframe.emitted (before.map Event.call)).length
      = (pulls (before.map Event.call) - 2) * factor + 1

/-- The stop of a stream, from the calls of the full one. -/
theorem Run.stopsAt_of_calls {stopped full : Run σ τ} {factor : Nat} {fault : Fault}
    {before behind : List (Event τ)} {last mended : Event τ}
    (hstopped : stopped.events = before ++ [last])
    (hfull : full.events = before ++ mended :: behind)
    (quiet : ∀ e ∈ before, e.fault? = none) (failing : last.fault? = some fault)
    (hcall : mended.call = last.call) (hpaced : Paced factor 0 0 full.calls) :
    stopped.StopsAt full factor fault before last := by
  have hcalls : full.calls
      = before.map Event.call ++ last.call :: behind.map Event.call := by
    rw [Run.calls, hfull, List.map_append, List.map_cons, hcall]
  rw [hcalls] at hpaced
  refine ⟨hstopped, quiet, failing, ?_, ?_, fun hlast hpulls => ?_, fun left right hlast => ?_⟩
  · rw [hcalls, Run.calls, hstopped, List.map_append, List.map_singleton]
    exact ⟨behind.map Event.call, List.append_cons _ _ _ ▸ rfl⟩
  · rw [hcalls, emitted_append]
    exact List.prefix_append _ _
  · rw [hlast] at hpaced
    exact hpaced.pull_due hpulls
  · rw [hlast] at hpaced
    exact hpaced.middle_due

namespace Caller

variable {c mended : Caller σ τ}

/-- The caller who answers with a frame wherever one cannot be had. -/
def answering (c : Caller σ τ) (frame : τ) : Caller σ τ where
  reads := c.reads.map (Recording.answering frame)
  finish := c.finish
  midpoint left right := Recording.answering frame (c.midpoint left right)
  hand f := Recording.answering () (c.hand f)

theorem answering_neverFails (c : Caller σ τ) (frame : τ) : (c.answering frame).NeverFails where
  reads := by
    intro read hread
    obtain ⟨read, -, rfl⟩ := List.mem_map.mp hread
    exact succeeds_answering frame read
  midpoint := fun left right => succeeds_answering frame (c.midpoint left right)
  hand := fun f => succeeds_answering () (c.hand f)

theorem isMendedBy_answering (c : Caller σ τ) (frame : τ) :
    c.IsMendedBy (c.answering frame) where
  reads := List.forall₂_map_right_iff.mpr (List.forall₂_same.mpr fun read _ =>
    mends_answering frame read)
  finish := rfl
  midpoint := fun left right => mends_answering frame (c.midpoint left right)
  hand := fun f => mends_answering () (c.hand f)

/-- The caller of a stream with more frames behind those that there are. -/
def followedBy (c : Caller σ τ) (later : List (ExceptT Fault (StateM σ) τ)) : Caller σ τ :=
  { c with reads := c.reads ++ later }

theorem courseFrom_failsLike (midpoint : τ → τ → Recording σ τ τ) (hand : τ → Recording σ τ Unit)
    (finish : StateM σ Unit) (count : Nat) (left : τ) (reads later : List (Recording σ τ τ)) :
    FailsLike (courseFrom midpoint hand (ofEnd finish) k count left reads)
      (courseFrom midpoint hand (ofEnd finish) k count left (reads ++ later)) := by
  induction reads generalizing count left with
  | nil => exact failsLike_ofEnd finish count _
  | cons read rest ih =>
    exact .bind fun right => .bind fun tree => .bind fun _ => ih (count + 2 ^ k) right

/-- Frames behind the failing call are not looked at. -/
theorem stream_failsLike (c : Caller σ τ) (k : Nat) (later : List (ExceptT Fault (StateM σ) τ)) :
    FailsLike (c.stream (2 ^ k)) ((c.followedBy later).stream (2 ^ k)) := by
  rw [stream, stream, interpolateStream_eq_course, interpolateStream_eq_course, followedBy,
    List.map_append]
  cases c.reads with
  | nil => exact failsLike_ofEnd c.finish 0 _
  | cons read rest =>
    exact .bind fun first => .bind fun _ => courseFrom_failsLike _ _ _ 1 first _ _

/-- Without a power of two nothing is called. -/
theorem run_of_not_power (c : Caller σ τ) {factor : Nat} (state : σ) (h : ¬∃ k, factor = 2 ^ k) :
    c.run factor state = ⟨.error (.invalid (.factor factor)), state, []⟩ := by
  rw [run, stream, interpolateStream_of_not_power _ _ _ h]
  rfl

theorem run_followedBy {factor : Nat} {state : σ} {fault : Fault}
    (h : (c.run factor state).outcome = .error fault)
    (later : List (ExceptT Fault (StateM σ) τ)) :
    (c.followedBy later).run factor state = c.run factor state := by
  by_cases hfactor : ∃ k, factor = 2 ^ k
  · obtain ⟨k, rfl⟩ := hfactor
    obtain ⟨outcome, left, events, hrun⟩ : ∃ outcome left events,
        (c.stream (2 ^ k)).outcome state [] = (outcome, left, events) := ⟨_, _, _, rfl⟩
    rw [run_eq_of_outcome hrun] at h ⊢
    obtain rfl : outcome = .error fault := h
    exact run_eq_of_outcome (c.stream_failsLike k later state [] fault left events hrun)
  · rw [run_of_not_power _ state hfactor, run_of_not_power _ state hfactor]

/-- A stream of a factor that is no power of two is refused without a call. Any other stream makes
the calls that it makes if no call fails, up to its first call that fails, whose fault it gives. A
caller who never fails and otherwise gives the same answers exists as soon as there is a frame. A
stream that fails does so in the same way whatever frames, and however many, stand behind its
own. -/
theorem run_stops_at_first_fault (c : Caller σ τ) (factor : Nat) (state : σ) :
    ((¬∃ k, factor = 2 ^ k) →
      c.run factor state = ⟨.error (.invalid (.factor factor)), state, []⟩) ∧
    (∀ _ : τ, ∃ mended : Caller σ τ, c.IsMendedBy mended ∧ mended.NeverFails) ∧
    (∀ fault, (c.run factor state).outcome = .error fault → ∀ later,
      (c.followedBy later).run factor state = c.run factor state) ∧
    ∀ k, factor = 2 ^ k → ∀ mended : Caller σ τ, c.IsMendedBy mended → mended.NeverFails →
      (∀ total, (c.run factor state).outcome = .ok total →
        c.run factor state = mended.run factor state ∧
          ∀ e ∈ (c.run factor state).events, e.fault? = none) ∧
      ∀ fault, (c.run factor state).outcome = .error fault → ∃ before last,
        (c.run factor state).StopsAt (mended.run factor state) factor fault before last := by
  refine ⟨run_of_not_power c state, fun frame =>
    ⟨c.answering frame, c.isMendedBy_answering frame, c.answering_neverFails frame⟩,
    fun fault hfault later => run_followedBy hfault later, ?_⟩
  rintro k rfl mended hmended hquiet
  have hpaced := hquiet.paced k state
  have htracks := hmended.follows_stream k state []
  obtain ⟨outcome, left, events, hrun⟩ : ∃ outcome left events,
      (c.stream (2 ^ k)).outcome state [] = (outcome, left, events) := ⟨_, _, _, rfl⟩
  obtain ⟨outcome', left', events', hfull⟩ : ∃ outcome left events,
      (mended.stream (2 ^ k)).outcome state [] = (outcome, left, events) := ⟨_, _, _, rfl⟩
  rw [hrun, hfull] at htracks
  rw [run_eq_of_outcome hfull] at hpaced
  rw [run_eq_of_outcome hrun, run_eq_of_outcome hfull]
  cases htracks with
  | same total state' new quiet => exact ⟨fun _ _ => ⟨rfl, quiet⟩, nofun⟩
  | @stopped fault before behind last mended _ _ _ quiet failing hcall =>
    -- The full run has the same call at this place, and its pace says how much is handed on there.
    refine ⟨nofun, fun fault' hfault' => ?_⟩
    obtain rfl := Except.error.inj hfault'
    exact ⟨before, last, Run.stopsAt_of_calls rfl rfl quiet failing hcall hpaced⟩

/-- A caller of two frames that cannot make the third frame in the middle. -/
def faltering : Caller Nat Nat where
  reads := [0, 40].map fun frame => return frame
  finish := pure ()
  midpoint left right := do
    modify (· + 1)
    if (← get) = 3 then throw (.invalid (.reported "out of memory"))
    else return (left + right) / 2
  hand _ := pure ()

/-- The same caller, able to make all frames. -/
def steady : Caller Nat Nat where
  reads := [0, 40].map fun frame => return frame
  finish := pure ()
  midpoint left right := do
    modify (· + 1)
    return (left + right) / 2
  hand _ := pure ()

theorem steady_neverFails : steady.NeverFails where
  reads := by
    intro read hread state
    obtain ⟨frame, -, rfl⟩ := List.mem_map.mp hread
    exact ⟨frame, state, rfl⟩
  midpoint := fun left right state => ⟨(left + right) / 2, state + 1, rfl⟩
  hand := fun _ state => ⟨(), state, rfl⟩

theorem faltering_isMendedBy_steady : faltering.IsMendedBy steady where
  reads := .cons (fun _ _ _ h => h) (.cons (fun _ _ _ h => h) .nil)
  finish := rfl
  midpoint := by
    intro left right state frame state' h
    have hrun : (faltering.midpoint left right).run.run state
        = if state + 1 = 3 then (.error (.invalid (.reported "out of memory")), state + 1)
          else (.ok ((left + right) / 2), state + 1) := by
      by_cases hstate : state + 1 = 3
      · rw [if_pos hstate]
        cases hstate
        rfl
      · rw [if_neg hstate]
        show (ite (state + 1 = 3) (throw (.invalid (.reported "out of memory")))
          (pure ((left + right) / 2)) : ExceptT Fault (StateM Nat) Nat).run.run (state + 1) = _
        rw [if_neg hstate]
        rfl
    rw [hrun] at h
    split at h
    · cases h
    · exact h
  hand := fun _ _ _ _ h => h

/-- The third of the frames in front of the second one cannot be made: only the first frame is
handed on. -/
theorem run_stops_at_first_fault_faltering :
    (¬∃ k, 6 = 2 ^ k) ∧ faltering.run 6 0 = ⟨.error (.invalid (.factor 6)), 0, []⟩ ∧
    faltering.IsMendedBy steady ∧ steady.NeverFails ∧
    (faltering.run 4 0).outcome = .error (.invalid (.reported "out of memory")) ∧
    (∀ later, (faltering.followedBy later).run 4 0 = faltering.run 4 0) ∧
    ∃ before last, (faltering.run 4 0).StopsAt (steady.run 4 0) 4
      (.invalid (.reported "out of memory")) before last := by
  have hsix : ¬∃ k, 6 = 2 ^ k := fun h => absurd (isPowerOfTwo_iff.mpr h) (by decide)
  have hfault : (faltering.run 4 0).outcome = .error (.invalid (.reported "out of memory")) :=
    eq_error_of_fault? (by decide +kernel)
  exact ⟨hsix, (run_stops_at_first_fault faltering 6 0).1 hsix, faltering_isMendedBy_steady,
    steady_neverFails, hfault, (run_stops_at_first_fault faltering 4 0).2.2.1 _ hfault,
    ((run_stops_at_first_fault faltering 4 0).2.2.2 2 rfl steady faltering_isMendedBy_steady
      steady_neverFails).2 _ hfault⟩

end Caller

end Midframe
