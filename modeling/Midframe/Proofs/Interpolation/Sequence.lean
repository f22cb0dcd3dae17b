import Midframe.Proofs.Interpolation.Course
import Midframe.Proofs.Outcome

/-!
# Sequences in memory

Raising the rate of frames that are at hand is a function of the frames: `refined` fills every
interval between neighbouring frames. To fill an interval `j + i` times is to fill it `j` times, and
then every interval between the frames this gives `i` times; so raising the rate by one power of two
and then by another one is raising it by their product.
-/

namespace Midframe

variable {τ : Type} (midpoint : τ → τ → Except Fault τ)

/-! ## Filled intervals -/

/-- The frames behind `left` up to `right`, in an interval that is halved so many times. -/
def between : Nat → τ → τ → Except Fault (List τ)
  | 0, _, right => return [right]
  | k + 1, left, right => do
    let middle ← midpoint left right
    let before ← between k left middle
    let behind ← between k middle right
    return before ++ behind

/-- The frames behind `left`, in intervals that end at the frames of a list and are halved so many
times. -/
def betweenAll (k : Nat) (left : τ) : List τ → Except Fault (List τ)
  | [] => return []
  | right :: rest => do
    let before ← between midpoint k left right
    let behind ← betweenAll k right rest
    return before ++ behind

/-- Frames whose intervals are halved so many times. -/
def refined (k : Nat) : List τ → Except Fault (List τ)
  | [] => return []
  | first :: rest => do return first :: (← betweenAll midpoint k first rest)

variable {midpoint}

theorem between_succ_eq_ok {k : Nat} {left right : τ} {frames : List τ} :
    between midpoint (k + 1) left right = .ok frames ↔ ∃ middle before behind,
      midpoint left right = .ok middle ∧ between midpoint k left middle = .ok before ∧
      between midpoint k middle right = .ok behind ∧ before ++ behind = frames := by
  simp only [between, bind_eq_ok, pure_eq_ok, ← exists_and_left]

theorem betweenAll_cons_eq_ok {k : Nat} {left right : τ} {rest frames : List τ} :
    betweenAll midpoint k left (right :: rest) = .ok frames ↔ ∃ before behind,
      between midpoint k left right = .ok before ∧ betweenAll midpoint k right rest = .ok behind ∧
      before ++ behind = frames := by
  simp only [betweenAll, bind_eq_ok, pure_eq_ok, ← exists_and_left]

/-- A filled interval ends with its right end. -/
theorem getLast?_of_between {k : Nat} {left right : τ} {frames : List τ}
    (h : between midpoint k left right = .ok frames) : frames.getLast? = some right := by
  induction k generalizing left right frames with
  | zero =>
    obtain rfl := Except.ok.inj h
    rfl
  | succ k ih =>
    obtain ⟨middle, before, behind, -, -, hbehind, rfl⟩ := between_succ_eq_ok.mp h
    rw [List.getLast?_append, ih hbehind]
    rfl

/-- Intervals are filled independently of each other; those behind some frames start at the last
one. -/
theorem betweenAll_append_eq_ok {k : Nat} {left : τ} {xs ys frames : List τ} :
    betweenAll midpoint k left (xs ++ ys) = .ok frames ↔ ∃ before behind,
      betweenAll midpoint k left xs = .ok before ∧
      betweenAll midpoint k (xs.getLast?.getD left) ys = .ok behind ∧
      before ++ behind = frames := by
  induction xs generalizing left frames with
  | nil =>
    constructor
    · intro h
      exact ⟨[], frames, rfl, h, rfl⟩
    · rintro ⟨_, behind, h, h', rfl⟩
      obtain rfl := Except.ok.inj h
      exact h'
  | cons x xs ih =>
    have hlast : (x :: xs).getLast?.getD left = xs.getLast?.getD x := by
      rw [List.getLast?_cons]
      rfl
    rw [List.cons_append, betweenAll_cons_eq_ok, hlast]
    simp only [ih, betweenAll_cons_eq_ok]
    constructor
    · rintro ⟨first, _, hfirst, ⟨before, behind, hbefore, hbehind, rfl⟩, rfl⟩
      exact ⟨_, behind, ⟨first, before, hfirst, hbefore, rfl⟩, hbehind, List.append_assoc ..⟩
    · rintro ⟨_, behind, ⟨first, before, hfirst, hbefore, rfl⟩, hbehind, rfl⟩
      exact ⟨first, _, hfirst, ⟨before, behind, hbefore, hbehind, rfl⟩,
        (List.append_assoc ..).symm⟩

/-! ## Filled twice -/

/-- To halve an interval `j + i` times is to halve it `j` times, and then what lies between the
frames `i` times. -/
theorem between_add_eq_ok {j i : Nat} {left right : τ} {frames : List τ} :
    between midpoint (j + i) left right = .ok frames ↔ ∃ once,
      between midpoint j left right = .ok once ∧ betweenAll midpoint i left once = .ok frames := by
  induction j generalizing left right frames with
  | zero =>
    rw [Nat.zero_add]
    constructor
    · intro h
      exact ⟨[right], rfl, betweenAll_cons_eq_ok.mpr ⟨frames, [], h, rfl, List.append_nil _⟩⟩
    · rintro ⟨_, honce, h⟩
      obtain rfl := Except.ok.inj honce
      obtain ⟨before, _, hbefore, hnil, rfl⟩ := betweenAll_cons_eq_ok.mp h
      obtain rfl := Except.ok.inj hnil
      rwa [List.append_nil]
  | succ j ih =>
    -- Both halves are filled twice; the frames of the right one start behind the middle, which is
    -- the last frame of the left one.
    rw [Nat.add_right_comm, between_succ_eq_ok]
    simp only [ih, between_succ_eq_ok]
    constructor
    · rintro ⟨middle, _, _, hmiddle, ⟨once, honce, hbefore⟩, ⟨once', honce', hbehind⟩, rfl⟩
      refine ⟨_, ⟨middle, once, once', hmiddle, honce, honce', rfl⟩, ?_⟩
      refine betweenAll_append_eq_ok.mpr ⟨_, _, hbefore, ?_, rfl⟩
      rwa [getLast?_of_between honce]
    · rintro ⟨_, ⟨middle, once, once', hmiddle, honce, honce', rfl⟩, h⟩
      obtain ⟨before, behind, hbefore, hbehind, rfl⟩ := betweenAll_append_eq_ok.mp h
      rw [getLast?_of_between honce] at hbehind
      exact ⟨middle, before, behind, hmiddle, ⟨once, honce, hbefore⟩, ⟨once', honce', hbehind⟩, rfl⟩

theorem betweenAll_add_eq_ok {j i : Nat} {left : τ} {xs frames : List τ} :
    betweenAll midpoint (j + i) left xs = .ok frames ↔ ∃ once,
      betweenAll midpoint j left xs = .ok once ∧ betweenAll midpoint i left once = .ok frames := by
  induction xs generalizing left frames with
  | nil =>
    constructor
    · intro h
      obtain rfl := Except.ok.inj h
      exact ⟨[], rfl, rfl⟩
    · rintro ⟨_, honce, h⟩
      obtain rfl := Except.ok.inj honce
      exact h
  | cons x xs ih =>
    rw [betweenAll_cons_eq_ok]
    simp only [ih, between_add_eq_ok, betweenAll_cons_eq_ok]
    constructor
    · rintro ⟨_, _, ⟨once, honce, hbefore⟩, ⟨once', honce', hbehind⟩, rfl⟩
      refine ⟨_, ⟨once, once', honce, honce', rfl⟩, ?_⟩
      refine betweenAll_append_eq_ok.mpr ⟨_, _, hbefore, ?_, rfl⟩
      rwa [getLast?_of_between honce]
    · rintro ⟨_, ⟨once, once', honce, honce', rfl⟩, h⟩
      obtain ⟨before, behind, hbefore, hbehind, rfl⟩ := betweenAll_append_eq_ok.mp h
      rw [getLast?_of_between honce] at hbehind
      exact ⟨before, behind, ⟨once, honce, hbefore⟩, ⟨once', honce', hbehind⟩, rfl⟩

theorem refined_add_eq_ok {j i : Nat} {xs frames : List τ} :
    refined midpoint (j + i) xs = .ok frames ↔ ∃ once,
      refined midpoint j xs = .ok once ∧ refined midpoint i once = .ok frames := by
  cases xs with
  | nil =>
    constructor
    · intro h
      obtain rfl := Except.ok.inj h
      exact ⟨[], rfl, rfl⟩
    · rintro ⟨_, honce, h⟩
      obtain rfl := Except.ok.inj honce
      exact h
  | cons first rest =>
    simp only [refined, bind_eq_ok, pure_eq_ok, betweenAll_add_eq_ok]
    constructor
    · rintro ⟨_, ⟨once, honce, h⟩, rfl⟩
      exact ⟨_, ⟨once, honce, rfl⟩, bind_eq_ok.mpr ⟨_, h, rfl⟩⟩
    · rintro ⟨_, ⟨once, honce, rfl⟩, h⟩
      obtain ⟨frames, h, hframes⟩ := bind_eq_ok.mp h
      exact ⟨frames, ⟨once, honce, h⟩, pure_eq_ok.mp hframes⟩

/-! ## The stream over a list -/

variable {m : Type → Type} [Monad m] [LawfulMonad m] {α β : Type}

/-- Chains without effects are settled one step after the other. -/
theorem settled_bind (x : Except Fault α) (f : α → Except Fault β) :
    settled (m := m) (x >>= f) = settled x >>= fun a => settled (f a) := by
  refine ExceptT.ext ?_
  rw [ExceptT.run_bind]
  cases x with
  | error e =>
    show pure (Except.error e) = pure (Except.error e) >>= _
    rw [pure_bind]
  | ok a =>
    show (settled (f a)).run = pure (Except.ok a) >>= _
    rw [pure_bind]

/-- Without effects the tree of an interval is made with its frames. -/
theorem make_settled (k : Nat) (left right : τ) :
    (fun tree => tree.frames right) <$>
        Bisected.make (m := ExceptT Fault m) (fun a b => settled (midpoint a b)) k left right
      = settled (between midpoint k left right) := by
  induction k generalizing left right with
  | zero => rw [Bisected.make, map_pure]; rfl
  | succ k ih =>
    simp only [Bisected.make, between, settled_bind, map_eq_pure_bind, bind_assoc, pure_bind]
    refine bind_congr fun middle => ?_
    rw [← ih, map_eq_pure_bind, bind_assoc]
    refine bind_congr fun before => ?_
    rw [pure_bind, ← ih, map_eq_pure_bind, bind_assoc]
    exact bind_congr fun behind => by rw [pure_bind]; rfl

/-- The action that collects a frame. -/
def collect (frame : τ) : ExceptT Fault (StateM (List τ)) Unit := modify (frame :: ·)

theorem run_collect (frames collected : List τ) :
    (frames.forM collect).run.run collected = (.ok (), frames.reverse ++ collected) := by
  induction frames generalizing collected with
  | nil => rfl
  | cons frame rest ih =>
    rw [List.reverse_cons, List.append_assoc, List.singleton_append, ← ih]
    rfl

/-- One interval of a stream whose frames are made without effects. -/
theorem courseFrom_cons (hand : τ → ExceptT Fault m Unit) (finish : m Unit) (k count : Nat)
    (left : τ) (read : ExceptT Fault m τ) (rest : List (ExceptT Fault m τ)) :
    courseFrom (fun a b => settled (midpoint a b)) hand finish k count left (read :: rest)
      = (do
        let right ← read
        let frames ← settled (between midpoint k left right)
        frames.forM hand
        courseFrom (fun a b => settled (midpoint a b)) hand finish k (count + 2 ^ k) right
          rest) := by
  rw [courseFrom]
  refine bind_congr fun right => ?_
  rw [← make_settled, map_eq_pure_bind, bind_assoc]
  simp only [pure_bind]

/-- One interval of a stream over a list. -/
theorem courseFrom_cons_settled (hand : τ → ExceptT Fault m Unit) (finish : m Unit)
    (k count : Nat) (left right : τ) (rest : List (ExceptT Fault m τ)) :
    courseFrom (fun a b => settled (midpoint a b)) hand finish k count left (pure right :: rest)
      = (do
        let frames ← settled (between midpoint k left right)
        frames.forM hand
        courseFrom (fun a b => settled (midpoint a b)) hand finish k (count + 2 ^ k) right
          rest) := by
  rw [courseFrom_cons, pure_bind]

/-- The stream over a list collects the frames of all intervals, unless one of them cannot be
made. -/
theorem run_courseFrom (k count : Nat) (left : τ) (rest collected : List τ) :
    match betweenAll midpoint k left rest with
    | .ok frames => ∃ total, (courseFrom (fun a b => settled (midpoint a b)) collect (pure ()) k
        count left (rest.map pure)).run.run collected = (.ok total, frames.reverse ++ collected)
    | .error e => ∃ collected', (courseFrom (fun a b => settled (midpoint a b)) collect (pure ()) k
        count left (rest.map pure)).run.run collected = (.error e, collected') := by
  induction rest generalizing count left collected with
  | nil => exact ⟨count, rfl⟩
  | cons right rest ih =>
    rw [List.map_cons, courseFrom_cons_settled, betweenAll]
    cases between midpoint k left right with
    | error e => exact ⟨collected, rfl⟩
    | ok before =>
      -- Frames are collected in reverse, those of this interval in front of the earlier ones.
      have hrun : (settled (Except.ok before) >>= fun frames => frames.forM collect >>= fun _ =>
            courseFrom (fun a b => settled (midpoint a b)) collect (pure ()) k (count + 2 ^ k) right
              (rest.map pure)).run.run collected
          = (courseFrom (fun a b => settled (midpoint a b)) collect (pure ()) k (count + 2 ^ k)
              right (rest.map pure)).run.run (before.reverse ++ collected) := by
        show (before.forM collect >>= fun _ => courseFrom _ collect (pure ()) k _ right
          (rest.map pure)).run.run collected = _
        rw [ExceptT.run_bind, StateT.run_bind, run_collect]
        rfl
      rw [hrun]
      have hrest := ih (count + 2 ^ k) right (before.reverse ++ collected)
      cases hbehind : betweenAll midpoint k right rest with
      | error e =>
        rw [hbehind] at hrest
        exact hrest
      | ok behind =>
        rw [hbehind] at hrest
        obtain ⟨total, hrest⟩ := hrest
        refine ⟨total, hrest.trans ?_⟩
        rw [List.reverse_append, List.append_assoc]

/-- Raising the rate of frames at hand by a power of two refines them. -/
theorem interpolateSequence_eq_course (frames : List τ) (k : Nat) :
    interpolateSequence frames (2 ^ k) midpoint
      = match (course (fun a b => settled (midpoint a b)) collect (pure ()) k
          (frames.map pure)).run.run [] with
        | (.ok _, frames) => .ok frames.reverse
        | (.error e, _) => .error e := by
  have hstream : interpolateStream (frames.map pure) (2 ^ k) (fun a b => settled (midpoint a b))
      (fun frame => (collect frame : ExceptT Fault (StateM (List τ)) Unit)) (pure ())
      = course (fun a b => settled (midpoint a b)) collect (pure ()) k (frames.map pure) :=
    interpolateStream_eq_course _ _ _ k _
  rw [← hstream]
  rfl

theorem interpolateSequence_eq_refined (frames : List τ) (k : Nat) :
    interpolateSequence frames (2 ^ k) midpoint = refined midpoint k frames := by
  rw [interpolateSequence_eq_course]
  cases frames with
  | nil => rfl
  | cons first rest =>
    have hrun : (course (fun a b => settled (midpoint a b)) collect (pure ()) k
          ((first :: rest).map pure)).run.run []
        = (courseFrom (fun a b => settled (midpoint a b)) collect (pure ()) k 1 first
            (rest.map pure)).run.run [first] := rfl
    have hrest := @run_courseFrom _ midpoint k 1 first rest [first]
    rw [hrun, refined]
    cases hall : betweenAll midpoint k first rest with
    | error e =>
      rw [hall] at hrest
      obtain ⟨collected, hrest⟩ := hrest
      rw [hrest]
      rfl
    | ok behind =>
      rw [hall] at hrest
      obtain ⟨total, hrest⟩ := hrest
      rw [hrest]
      simp only [List.reverse_append, List.reverse_reverse, List.reverse_singleton,
        List.singleton_append]
      rfl

/-- Raising the rate of a sequence by a power of two, and that of the result by another one,
succeeds exactly if raising it by their product does, and gives the same frames. -/
theorem interpolateSequence_twice (frames : List τ) (a b : Nat)
    (midpoint : τ → τ → Except Fault τ) (result : List τ) :
    (interpolateSequence frames (2 ^ a) midpoint >>= fun once =>
        interpolateSequence once (2 ^ b) midpoint) = .ok result
      ↔ interpolateSequence frames (2 ^ (a + b)) midpoint = .ok result := by
  rw [bind_eq_ok, interpolateSequence_eq_refined, interpolateSequence_eq_refined, refined_add_eq_ok]
  simp only [interpolateSequence_eq_refined]

end Midframe
