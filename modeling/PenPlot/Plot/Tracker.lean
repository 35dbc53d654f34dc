import PenPlot.Geometry.Window
import PenPlot.Plot.Pen

/-!
# Visibility

What lies outside the view box is not drawn. A tracker is asked for moves and strokes and answers each
with at most one command: nothing if the point lies outside, a stroke if a stroke is asked for and the
point before lies inside as well, and a move in all other cases, so that a stroke which comes back into
the view box is entered with the pen lifted.

| point before | point   | stroke asked for | move asked for |
|--------------|---------|------------------|----------------|
| inside       | inside  | stroke           | move           |
| outside      | inside  | move             | move           |
| any          | outside | nothing          | nothing        |
-/

namespace PenPlot

/-- What a tracker is asked for. -/
inductive Request (α : Type) where
  /-- A move or a stroke. -/
  | pen (command : PenCommand α)
  /-- Another view box from now on. -/
  | viewBox (box : ViewBox α)
  deriving DecidableEq, Repr

/-- How many commands were sent and how many points suppressed. -/
structure PenCounts where
  /-- The moves that were sent. -/
  moves : Nat := 0
  /-- The strokes that were sent. -/
  draws : Nat := 0
  /-- The points that lay outside. -/
  suppressed : Nat := 0
  deriving DecidableEq, Repr

/-- The sums of the counts of two runs. -/
instance PenCounts.instAdd : Add PenCounts where
  add first second :=
    { moves := first.moves + second.moves
      draws := first.draws + second.draws
      suppressed := first.suppressed + second.suppressed }

/-- The sums of the counts of several runs. -/
def PenCounts.total : List PenCounts → PenCounts
  | [] => {}
  | counts :: later => counts + total later

/-- The counts with one more command of its kind. -/
def PenCounts.add {α : Type} (counts : PenCounts) : Option (PenCommand α) → PenCounts
  | some (.move _) => { counts with moves := counts.moves + 1 }
  | some (.draw _) => { counts with draws := counts.draws + 1 }
  | none => { counts with suppressed := counts.suppressed + 1 }

/-- What is remembered from request to request. -/
structure Tracker (α : Type) where
  /-- The view box in force. -/
  box : ViewBox α
  /-- The point of the last request lay inside the view box that was in force then. -/
  inside : Bool
  /-- What was answered up to now. -/
  counts : PenCounts
  deriving Repr

variable {α : Type} [Scalar α]

namespace Tracker

/-- A tracker that has not been asked for anything. It takes the point before as inside. -/
def ofBox (box : ViewBox α) : Tracker α := ⟨box, true, {}⟩

/-- The tracker with another view box; whether the last point lay inside is not asked again. -/
def setBox (tracker : Tracker α) (box : ViewBox α) : Tracker α := { tracker with box := box }

/-- The answer to a request for a command: the command that is sent, if one is. -/
def answer? (tracker : Tracker α) (command : PenCommand α) : Option (PenCommand α) :=
  if tracker.box.contains command.point then
    if command.isDraw && tracker.inside then some (.draw command.point)
    else some (.move command.point)
  else none

/-- The tracker behind a request for a command. -/
def asked (tracker : Tracker α) (command : PenCommand α) : Tracker α :=
  { tracker with
    inside := tracker.box.contains command.point
    counts := tracker.counts.add (tracker.answer? command) }

/-- The tracker behind requests, and the commands that are sent. -/
def run (tracker : Tracker α) : List (Request α) → List (PenCommand α) × Tracker α
  | [] => ([], tracker)
  | .viewBox box :: requests => (tracker.setBox box).run requests
  | .pen command :: requests =>
    let (commands, last) := (tracker.asked command).run requests
    ((tracker.answer? command).toList ++ commands, last)

/-- A tracker in front of a sink is a sink again: what is received is asked for, and the sink receives
the answers. -/
def filter {σ : Type} (sink : Sink α σ) : Sink α (Tracker α × σ) :=
  let receive (command : PenCommand α) (state : Tracker α × σ) : Tracker α × σ :=
    (state.1.asked command, sink.receiveAll state.2 (state.1.answer? command).toList)
  { onMove := fun place state => receive (.move place) state
    onDraw := fun place state => receive (.draw place) state }

end Tracker

end PenPlot
