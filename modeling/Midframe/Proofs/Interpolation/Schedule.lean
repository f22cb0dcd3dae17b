import Midframe.Proofs.Interpolation.Answers

/-!
# Streams without faults

If no call fails, the calls of a stream come in a fixed order: the first frame is pulled and handed
on; then each further frame is pulled, the frames between it and the one before are made in
pre-order of the bisection, and all of them and the pulled one are handed on from left to right. A
last pull finds that there is no further frame. Answers may depend on everything that happened
before; the order of the calls does not. The frames that are pulled are those of the reads of the
stream, in their order.
-/

namespace Midframe

open Recording

variable {σ τ : Type} {k : Nat}

/-! ## Scheduled events -/

namespace Bisected

/-- The calls that make the frames of an interval: the one in the middle, then those of the left
half and those of the right half. -/
def events {k : Nat} : Bisected τ k → τ → τ → List (Event τ)
  | whole, _, _ => []
  | halves middle before behind, left, right =>
    .middle left right (.ok middle) :: (before.events left middle ++ behind.events middle right)

/-- Every frame between the ends of an interval is made once. -/
theorem events_length (t : Bisected τ k) (left right : τ) :
    (t.events left right).length = 2 ^ k - 1 := by
  induction t generalizing left right with
  | whole => rfl
  | @halves k middle before behind ihBefore ihBehind =>
    have hpos : 0 < 2 ^ k := Nat.two_pow_pos k
    have hdouble : 2 ^ (k + 1) = 2 ^ k + 2 ^ k := by ring
    rw [events, List.length_cons, List.length_append, ihBefore, ihBehind]
    omega

/-- While frames are made none is handed on. -/
theorem emitted_events (t : Bisected τ k) (left right : τ) :
    emitted ((t.events left right).map Event.call) = [] := by
  induction t generalizing left right with
  | whole => rfl
  | halves middle before behind ihBefore ihBehind =>
    rw [events, List.map_cons, Event.call, emitted_cons_middle, List.map_append, emitted_append,
      ihBefore, ihBehind, List.append_nil]

/-- While frames are made none is pulled. -/
theorem pulled_events (t : Bisected τ k) (left right : τ) : pulled (t.events left right) = [] := by
  induction t generalizing left right with
  | whole => rfl
  | halves middle before behind ihBefore ihBehind =>
    show pulled (before.events left middle ++ behind.events middle right) = []
    rw [pulled_append, ihBefore, ihBehind, List.append_nil]

end Bisected

/-- The calls that hand on some frames. -/
def handEvents (frames : List τ) : List (Event τ) := frames.map fun frame => .emit frame (.ok ())

theorem emitted_handEvents (frames : List τ) :
    emitted ((handEvents frames).map Event.call) = frames := by
  induction frames with
  | nil => rfl
  | cons frame rest ih =>
    rw [handEvents, List.map_cons, List.map_cons, Event.call, emitted_cons_emit]
    exact congrArg (frame :: ·) ih

theorem pulled_handEvents (frames : List τ) : pulled (handEvents frames) = [] := by
  induction frames with
  | nil => rfl
  | cons frame rest ih => exact ih

/-- The calls for some intervals, each given by its right end and what is made inside of it, the
first one starting at `left`. -/
def intervalEvents (left : τ) : List (τ × Bisected τ k) → List (Event τ)
  | [] => []
  | (right, tree) :: rest =>
    .pull (some (.ok right)) ::
      (tree.events left right ++ handEvents (tree.frames right) ++ intervalEvents right rest)

/-- The calls for a stream of a first frame and the intervals behind it. -/
def streamEvents (first : τ) (later : List (τ × Bisected τ k)) : List (Event τ) :=
  .pull (some (.ok first)) :: .emit first (.ok ()) :: (intervalEvents first later ++ [.pull none])

theorem emitted_intervalEvents (left : τ) (later : List (τ × Bisected τ k)) :
    emitted ((intervalEvents left later).map Event.call)
      = later.flatMap fun interval => interval.2.frames interval.1 := by
  induction later generalizing left with
  | nil => rfl
  | cons interval rest ih =>
    obtain ⟨right, tree⟩ := interval
    rw [intervalEvents, List.map_cons, Event.call, emitted_cons_pull, List.map_append,
      List.map_append, emitted_append, emitted_append, tree.emitted_events, emitted_handEvents, ih,
      List.nil_append, List.flatMap_cons]

/-- A stream hands on its first frame and the frames of all intervals. -/
theorem emitted_streamEvents (first : τ) (later : List (τ × Bisected τ k)) :
    emitted ((streamEvents first later).map Event.call)
      = first :: later.flatMap fun interval => interval.2.frames interval.1 := by
  simp only [streamEvents, List.map_cons, List.map_append, List.map_nil, Event.call,
    emitted_cons_pull, emitted_cons_emit, emitted_append, emitted_intervalEvents, emitted_nil,
    List.append_nil]

theorem pulled_intervalEvents (left : τ) (later : List (τ × Bisected τ k)) :
    pulled (intervalEvents left later) = (later.map Prod.fst).map .ok := by
  induction later generalizing left with
  | nil => rfl
  | cons interval rest ih =>
    obtain ⟨right, tree⟩ := interval
    show .ok right :: pulled (tree.events left right ++ handEvents (tree.frames right) ++
      intervalEvents right rest) = _
    rw [pulled_append, pulled_append, tree.pulled_events, pulled_handEvents, ih]
    rfl

/-- A stream pulls its first frame and the right ends of all intervals. -/
theorem pulled_streamEvents (first : τ) (later : List (τ × Bisected τ k)) :
    pulled (streamEvents first later) = (first :: later.map Prod.fst).map .ok := by
  show .ok first :: pulled (intervalEvents first later ++ [.pull none]) = _
  rw [pulled_append, pulled_intervalEvents]
  exact congrArg _ (List.append_nil _)

theorem length_flatMap_frames (later : List (τ × Bisected τ k)) :
    (later.flatMap fun interval => interval.2.frames interval.1).length
      = later.length * 2 ^ k := by
  induction later with
  | nil => simp
  | cons interval rest ih =>
    rw [List.flatMap_cons, List.length_append, Bisected.frames_length, ih, List.length_cons]
    ring

/-! ## Runs without faults -/

theorem performs_make {midpoint : τ → τ → ExceptT Fault (StateM σ) τ}
    (h : ∀ left right, Succeeds (midpoint left right)) (k : Nat) (left right : τ) :
    Performs (Bisected.make
        (fun left right => ofCall (.middle left right) (midpoint left right)) k left right)
      fun tree new => new = tree.events left right := by
  induction k generalizing left right with
  | zero => exact .pure rfl
  | succ k ih =>
    refine (h left right).performs.bind fun middle new hnew => ?_
    refine (ih left middle).bind fun before new' hnew' => ?_
    refine (ih middle right).bind fun behind new'' hnew'' => ?_
    refine .pure ?_
    rw [hnew, hnew', hnew'', List.append_nil]
    rfl

theorem performs_hand {hand : τ → ExceptT Fault (StateM σ) Unit} (h : ∀ f, Succeeds (hand f))
    (frames : List τ) :
    Performs (frames.forM fun frame => ofCall (.emit frame) (hand frame))
      fun _ new => new = handEvents frames := by
  induction frames with
  | nil => exact .pure rfl
  | cons frame rest ih =>
    simp only [List.forM_eq_forM, List.forM_cons] at ih ⊢
    refine (h frame).performs.bind fun _ new hnew => ih.mono fun _ new' hnew' => ?_
    rw [hnew, hnew']
    rfl

namespace Caller

variable {c : Caller σ τ}

theorem NeverFails.performs_courseFrom (hc : c.NeverFails) (k count : Nat) (left : τ)
    {reads : List (ExceptT Fault (StateM σ) τ)} (hreads : ∀ read ∈ reads, Succeeds read) :
    Performs (courseFrom (fun left right => ofCall (.middle left right) (c.midpoint left right))
        (fun frame => ofCall (.emit frame) (c.hand frame)) (ofEnd c.finish) k count left
        (reads.map (ofCall fun answer => .pull (some answer))))
      fun total new => ∃ later : List (τ × Bisected τ k), later.length = reads.length ∧
        total = count + later.length * 2 ^ k ∧
        new = intervalEvents left later ++ [.pull none] := by
  induction reads generalizing count left with
  | nil =>
    refine (performs_ofEnd c.finish).bind fun _ new hnew => .pure ⟨[], rfl, ?_, ?_⟩
    · simp
    · rw [hnew]
      rfl
  | cons read rest ih =>
    obtain ⟨hread, hrest⟩ := List.forall_mem_cons.mp hreads
    refine hread.performs.bind fun right new hnew => ?_
    refine (performs_make hc.midpoint k left right).bind fun tree made hmade => ?_
    refine (performs_hand hc.hand (tree.frames right)).bind fun _ handed hhanded => ?_
    refine (ih (count + 2 ^ k) right hrest).mono fun total new' => ?_
    rintro ⟨later, hlength, rfl, rfl⟩
    refine ⟨(right, tree) :: later, by rw [List.length_cons, hlength, List.length_cons], ?_, ?_⟩
    · rw [List.length_cons]
      ring
    · rw [hnew, hmade, hhanded, intervalEvents]
      simp only [List.cons_append, List.nil_append, List.append_assoc]

/-- A stream without faults either finds no frame, or makes the calls of a schedule. -/
theorem NeverFails.performs_stream (hc : c.NeverFails) (k : Nat) :
    Performs (c.stream (2 ^ k)) fun total new =>
      (c.reads = [] ∧ total = 0 ∧ new = [.pull none]) ∨
      ∃ (first : τ) (later : List (τ × Bisected τ k)), later.length + 1 = c.reads.length ∧
        total = later.length * 2 ^ k + 1 ∧ new = streamEvents first later := by
  rw [stream, interpolateStream_eq_course]
  cases hreads : c.reads with
  | nil => exact (performs_ofEnd c.finish).bind fun _ new hnew => .pure (.inl ⟨rfl, rfl, by simpa⟩)
  | cons read rest =>
    obtain ⟨hread, hrest⟩ := List.forall_mem_cons.mp (hreads ▸ hc.reads)
    refine hread.performs.bind fun first new hnew => ?_
    refine (hc.hand first).performs.bind fun _ handed hhanded => ?_
    refine (hc.performs_courseFrom k 1 first hrest).mono fun total new' => ?_
    rintro ⟨later, hlength, rfl, rfl⟩
    refine .inr ⟨first, later, congrArg (· + 1) hlength, Nat.add_comm _ _, ?_⟩
    rw [hnew, hhanded]
    rfl

theorem run_eq_of_outcome {factor : Nat} {state state' : σ} {outcome : Except Fault Nat}
    {events : List (Event τ)}
    (h : (c.stream factor).outcome state [] = (outcome, state', events)) :
    c.run factor state = ⟨outcome, state', events⟩ := by
  rw [run, h]

/-- The events of a run are a trace of its caller. -/
theorem exists_trace_of_run (c : Caller σ τ) (k : Nat) (state : σ) : ∃ rest,
    c.Trace (c.reads, state) (c.run (2 ^ k) state).events (rest, (c.run (2 ^ k) state).state) := by
  obtain ⟨new, rest, -, hevents, htrace⟩ := Plays.stream c k state []
  obtain rfl : (c.run (2 ^ k) state).events = new := hevents
  exact ⟨rest, htrace⟩

/-- If no call fails, every call is answered by the caller in its turn, and all of the reads are
run. A stream without frames makes the one call that finds no frame. Any other stream makes the
calls of its schedule: its first frame is pulled and handed on, and for each further frame it is
pulled, the `2 ^ k - 1` frames in front of it are made by bisection, each one once, and the `2 ^ k`
frames of the interval are handed on from left to right. If the reads give certain frames, these are
the ends of the intervals. The stream gives the number of frames handed on. -/
theorem run_keeps_schedule (hc : c.NeverFails) (k : Nat) (state : σ) :
    c.Trace (c.reads, state) (c.run (2 ^ k) state).events ([], (c.run (2 ^ k) state).state) ∧
    (c.reads = [] → (c.run (2 ^ k) state).outcome = .ok 0 ∧
      (c.run (2 ^ k) state).events = [.pull none]) ∧
    (c.reads ≠ [] → ∃ (first : τ) (later : List (τ × Bisected τ k)),
      later.length + 1 = c.reads.length ∧
      (∀ frames, List.Forall₂ Gives c.reads frames → frames = first :: later.map Prod.fst) ∧
      (c.run (2 ^ k) state).events = streamEvents first later ∧
      (c.run (2 ^ k) state).outcome = .ok ((c.reads.length - 1) * 2 ^ k + 1) ∧
      emitted (c.run (2 ^ k) state).calls
        = first :: later.flatMap (fun interval => interval.2.frames interval.1) ∧
      (emitted (c.run (2 ^ k) state).calls).length = (c.reads.length - 1) * 2 ^ k + 1 ∧
      ∀ interval ∈ later, ∀ left, (interval.2.events left interval.1).length = 2 ^ k - 1 ∧
        (interval.2.frames interval.1).length = 2 ^ k) := by
  obtain ⟨rest, htrace⟩ := c.exists_trace_of_run k state
  obtain ⟨total, state', new, houtcome, hnew⟩ := hc.performs_stream k state []
  rw [List.nil_append] at houtcome
  rw [run_eq_of_outcome houtcome] at htrace ⊢
  rcases hnew with ⟨hreads, rfl, rfl⟩ | ⟨first, later, hlength, rfl, rfl⟩
  · obtain rfl : rest = [] := htrace.rest_eq_nil (by rw [hreads]; rfl)
    exact ⟨htrace, fun _ => ⟨rfl, rfl⟩, fun h => absurd hreads h⟩
  · have hpulled := pulled_streamEvents first later
    have hemitted := emitted_streamEvents first later
    have hlater : c.reads.length - 1 = later.length := by omega
    have hcount : (first :: later.flatMap fun interval => interval.2.frames interval.1).length
        = (c.reads.length - 1) * 2 ^ k + 1 := by
      rw [List.length_cons, length_flatMap_frames, hlater]
    obtain rfl : rest = [] := by
      refine htrace.rest_eq_nil ?_
      rw [hpulled, List.length_map, List.length_cons, List.length_map, hlength]
    refine ⟨htrace, fun h => ?_, fun _ => ⟨first, later, hlength, fun frames hframes => ?_, rfl,
      by rw [hlater], hemitted, ?_, ?_⟩⟩
    · rw [h] at hlength
      cases hlength
    · have hgiven := htrace.pulled_eq_of_gives hframes
      rw [hpulled] at hgiven
      exact (List.map_injective_iff.mpr (fun _ _ => Except.ok.inj) hgiven).symm
    · rw [Run.calls, hemitted, hcount]
    · intro interval _ left
      exact ⟨interval.2.events_length left interval.1, interval.2.frames_length interval.1⟩

/-- Three frames, and frames in the middle that depend on the number of calls so far. -/
def counting : Caller Nat Nat where
  reads := [0, 40, 80].map fun frame => do
    modify (· + 1)
    return frame
  finish := modify (· + 1)
  midpoint left right := do
    modify (· + 1)
    return (left + right) / 2 + (← get)
  hand _ := modify (· + 1)

theorem counting_neverFails : counting.NeverFails where
  reads := by
    intro read hread state
    obtain ⟨frame, -, rfl⟩ := List.mem_map.mp hread
    exact ⟨frame, state + 1, rfl⟩
  midpoint := fun left right state => ⟨(left + right) / 2 + (state + 1), state + 1, rfl⟩
  hand := fun _ state => ⟨(), state + 1, rfl⟩

theorem counting_gives : List.Forall₂ Gives counting.reads [0, 40, 80] :=
  .cons (fun state => ⟨state + 1, rfl⟩) (.cons (fun state => ⟨state + 1, rfl⟩)
    (.cons (fun state => ⟨state + 1, rfl⟩) .nil))

/-- The rate of three frames doubled, by a caller that counts its calls. -/
theorem run_keeps_schedule_counting : counting.reads ≠ [] ∧
    List.Forall₂ Gives counting.reads [0, 40, 80] ∧
    (counting.run (2 ^ 1) 0).outcome = .ok 5 ∧
    (emitted (counting.run (2 ^ 1) 0).calls).length = 5 ∧
    ∃ (first : Nat) (later : List (Nat × Bisected Nat 1)), later.length = 2 ∧
      [0, 40, 80] = first :: later.map Prod.fst ∧
      (counting.run (2 ^ 1) 0).events = streamEvents first later ∧
      first :: later.flatMap (fun interval => interval.2.frames interval.1)
        = [0, 24, 40, 68, 80] := by
  have hreads : counting.reads ≠ [] := nofun
  obtain ⟨first, later, hlength, hframes, hevents, houtcome, hemitted, hcount, -⟩ :=
    (run_keeps_schedule counting_neverFails 1 0).2.2 hreads
  refine ⟨hreads, counting_gives, houtcome, hcount, first, later, Nat.succ.inj hlength,
    hframes _ counting_gives, hevents, ?_⟩
  rw [← hemitted]
  decide +kernel

end Caller

end Midframe
