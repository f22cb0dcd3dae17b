import Midframe.Schedule

/-!
# Raising the frame rate

A stream of frames is read one frame at a time. Each interval between neighbouring frames is filled
and handed on before the next frame is read, so no more frames are held than one interval has. What
reading, making and handing on a frame involve is left to the caller: they are actions of a monad
`m`, and any of them may fail, which ends the stream.
-/

namespace Midframe

variable {m : Type → Type} [Monad m] {τ : Type}

/-- An outcome that needs no action. -/
def settled {α : Type} (e : Except Fault α) : ExceptT Fault m α := ExceptT.mk (pure e)

namespace Interval

/-- The frames of an interval that are known at first: its two ends. -/
def ends (factor : Nat) (left right : τ) : Array (Option τ) :=
  ((Array.replicate (factor + 1) none).setIfInBounds 0 (some left)).setIfInBounds factor
    (some right)

/-- One more frame of an interval. -/
def step (midpoint : τ → τ → ExceptT Fault m τ) (slots : Array (Option τ)) (s : MidpointStep) :
    ExceptT Fault m (Array (Option τ)) :=
  match slots[s.left]?.join, slots[s.right]?.join with
  | some a, some b => do return slots.setIfInBounds s.mid (some (← midpoint a b))
  | _, _ => throw (.invalid (.stepNotReady s.left s.right s.mid))

/-- All frames of an interval, made in the given order. -/
def fill (midpoint : τ → τ → ExceptT Fault m τ) (order : List MidpointStep) (factor : Nat)
    (left right : τ) : ExceptT Fault m (Array (Option τ)) :=
  order.foldlM (step midpoint) (ends factor left right)

/-- The frame at a position of an interval. -/
def frame (slots : Array (Option τ)) (interval index : Nat) : ExceptT Fault m τ :=
  match slots[index]?.join with
  | some f => return f
  | none => throw (.invalid (.frameMissing index interval))

/-- Hands on all frames of an interval but the first, which was the last one of the interval
before. -/
def emit (hand : τ → ExceptT Fault m Unit) (slots : Array (Option τ)) (factor interval : Nat) :
    ExceptT Fault m Unit :=
  (List.range factor).forM fun i => do hand (← frame slots interval (i + 1))

end Interval

/-- The intervals behind a frame that was read and handed on already. Gives the number of frames
handed on. -/
def interpolateFrom (midpoint : τ → τ → ExceptT Fault m τ) (hand : τ → ExceptT Fault m Unit)
    (finish : m Unit) (order : List MidpointStep) (factor interval emitted : Nat) (left : τ) :
    List (ExceptT Fault m τ) → ExceptT Fault m Nat
  | [] => do
    ExceptT.lift finish
    return emitted
  | read :: rest => do
    let right ← read
    let slots ← Interval.fill midpoint order factor left right
    Interval.emit hand slots factor interval
    match slots[factor]?.join with
    | some last =>
      interpolateFrom midpoint hand finish order factor (interval + 1) (emitted + factor) last rest
    | none => throw (.invalid .rightFrameLost)

/-- Raises the frame rate of a stream, given as the actions that read its frames, by a power of two.
Reading on behind the last frame only finds out that there is none, which is the action `finish`.
Gives the number of frames handed on. -/
def interpolateStream (reads : List (ExceptT Fault m τ)) (factor : Nat)
    (midpoint : τ → τ → ExceptT Fault m τ) (hand : τ → ExceptT Fault m Unit)
    (finish : m Unit := pure ()) : ExceptT Fault m Nat :=
  if !isPowerOfTwo factor then throw (.invalid (.factor factor))
  else do
    let order ← settled (interpolationOrder factor 0)
    match reads with
    | [] => do
      ExceptT.lift finish
      return 0
    | read :: rest => do
      let first ← read
      hand first
      interpolateFrom midpoint hand finish order factor 0 1 first rest

/-- The frames of a sequence whose rate is raised by a power of two. -/
def interpolateSequence (frames : List τ) (factor : Nat) (midpoint : τ → τ → Except Fault τ) :
    Except Fault (List τ) :=
  let run : ExceptT Fault (StateM (List τ)) Nat :=
    interpolateStream (frames.map pure) factor (fun a b => settled (midpoint a b))
      fun frame => modify (frame :: ·)
  match run.run.run [] with
  | (.ok _, frames) => .ok frames.reverse
  | (.error e, _) => .error e

end Midframe
