import PenPlot.Geometry.Point

/-!
# Pen commands

The pen is moved or it draws, and each command says where it goes. Whoever receives commands is a
sink: a state and what either command does to it.
-/

namespace PenPlot

/-- A command to the pen. -/
inductive PenCommand (α : Type) where
  /-- The pen goes to a point without a mark. -/
  | move (place : CanvasPoint α)
  /-- The pen draws a stroke to a point. -/
  | draw (place : CanvasPoint α)
  deriving DecidableEq, Repr

namespace PenCommand

variable {α : Type}

/-- Where the pen goes. -/
def point : PenCommand α → CanvasPoint α
  | move place => place
  | draw place => place

/-- The command makes a mark. -/
def isDraw : PenCommand α → Bool
  | move _ => false
  | draw _ => true

end PenCommand

/-- A receiver of pen commands. -/
structure Sink (α σ : Type) where
  /-- What a move to a point does. -/
  onMove : CanvasPoint α → σ → σ
  /-- What a stroke to a point does. -/
  onDraw : CanvasPoint α → σ → σ

namespace Sink

variable {α σ : Type}

/-- What a command does. -/
def receive (sink : Sink α σ) (state : σ) : PenCommand α → σ
  | .move place => sink.onMove place state
  | .draw place => sink.onDraw place state

/-- What commands do, one behind the other. -/
def receiveAll (sink : Sink α σ) (state : σ) (commands : List (PenCommand α)) : σ :=
  commands.foldl sink.receive state

/-- Keeps all commands, in order. -/
def recording : Sink α (Array (PenCommand α)) where
  onMove place commands := commands.push (.move place)
  onDraw place commands := commands.push (.draw place)

/-- Counts the moves and the strokes. -/
def counting : Sink α (Nat × Nat) where
  onMove _ counts := (counts.1 + 1, counts.2)
  onDraw _ counts := (counts.1, counts.2 + 1)

/-- Calls back for each command for which a callback is given. -/
def callback (onMove onDraw : Option (CanvasPoint α → σ → σ)) : Sink α σ where
  onMove place state := match onMove with
    | some call => call place state
    | none => state
  onDraw place state := match onDraw with
    | some call => call place state
    | none => state

@[simp] theorem receiveAll_nil (sink : Sink α σ) (state : σ) : sink.receiveAll state [] = state := rfl

@[simp] theorem receiveAll_cons (sink : Sink α σ) (state : σ) (command : PenCommand α)
    (commands : List (PenCommand α)) :
    sink.receiveAll state (command :: commands) =
      sink.receiveAll (sink.receive state command) commands := rfl

theorem receiveAll_append (sink : Sink α σ) (state : σ) (first second : List (PenCommand α)) :
    sink.receiveAll state (first ++ second) =
      sink.receiveAll (sink.receiveAll state first) second :=
  List.foldl_append

/-- A recording sink has received just the commands that were sent to it. -/
theorem receiveAll_recording (commands : List (PenCommand α)) (before : Array (PenCommand α)) :
    (recording.receiveAll before commands).toList = before.toList ++ commands := by
  induction commands generalizing before with
  | nil => simp [receiveAll]
  | cons command commands ih =>
    rw [receiveAll_cons, ih]
    cases command <;> simp [receive, recording]

end Sink

end PenPlot
