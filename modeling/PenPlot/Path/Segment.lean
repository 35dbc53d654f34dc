import PenPlot.Geometry.Arc
import PenPlot.Path.Instruction

/-!
# Following a path

An instruction becomes steps, one for each group of its arguments, and each step one segment of the
path in absolute coordinates, which starts where the segment before it ends. Three things are
remembered from step to step: the current point, the point at which the subpath started, and the last
control point of a curve, which the implied control point of a smooth curve mirrors.

An instruction is followed as a whole or not at all: its arguments are all read before the first step
is taken.
-/

namespace PenPlot

/-- A piece of a path in absolute coordinates. -/
inductive Segment (α : Type) where
  /-- The start of a subpath. -/
  | move (stop : Point α)
  /-- A straight line. -/
  | line (start stop : Point α)
  /-- A quadratic curve. -/
  | quadratic (start control stop : Point α)
  /-- A cubic curve. -/
  | cubic (start control₁ control₂ stop : Point α)
  /-- An elliptical arc. -/
  | arc (start : Point α) (shape : Arc α)
  /-- The straight line that closes a subpath. -/
  | close (start stop : Point α)
  deriving DecidableEq, Repr

/-- What one group of arguments asks for, in the coordinates that it is written in. -/
inductive Step (α : Type) where
  /-- Starts a subpath. -/
  | move (stop : Point α)
  /-- A straight line. -/
  | line (stop : Point α)
  /-- A straight line that keeps the ordinate. -/
  | horizontal (x : α)
  /-- A straight line that keeps the abscissa. -/
  | vertical (y : α)
  /-- A cubic curve. -/
  | cubic (control₁ control₂ stop : Point α)
  /-- A cubic curve whose first control point is implied. -/
  | smoothCubic (control₂ stop : Point α)
  /-- A quadratic curve. -/
  | quadratic (control stop : Point α)
  /-- A quadratic curve whose control point is implied. -/
  | smoothQuadratic (stop : Point α)
  /-- An elliptical arc, its rotation in degrees. -/
  | arc (rx ry degrees : α) (large sweep : Bool) (stop : Point α)
  /-- A straight line back to the start of the subpath. -/
  | close
  deriving DecidableEq, Repr

/-- The curves that a smooth curve may continue. -/
inductive CurveFamily where
  /-- Quadratic curves. -/
  | quadratic
  /-- Cubic curves. -/
  | cubic
  deriving DecidableEq, Repr

/-- What is remembered while a path is followed. -/
structure PathState (α : Type) where
  /-- Where the last segment ended. -/
  current : Point α
  /-- Where the subpath started. -/
  start : Point α
  /-- The last control point, if the last segment was a curve, and of which family it was. -/
  control : Option (CurveFamily × Point α)
  deriving DecidableEq, Repr

variable {α : Type} [Scalar α]

namespace Segment

/-- Where a segment ends. -/
def target : Segment α → Point α
  | move stop | line _ stop | quadratic _ _ stop | cubic _ _ _ stop | close _ stop => stop
  | arc _ shape => shape.stop

end Segment

namespace Step

/-- The step that a group of arguments asks for, if the group is complete. -/
def ofGroup? : PathCommand → List (Argument α) → Option (Step α)
  | .moveTo, [.number x, .number y] => some (move ⟨x, y⟩)
  | .lineTo, [.number x, .number y] => some (line ⟨x, y⟩)
  | .horizontalLineTo, [.number x] => some (horizontal x)
  | .verticalLineTo, [.number y] => some (vertical y)
  | .cubicTo false,
      [.number x₁, .number y₁, .number x₂, .number y₂, .number x, .number y] =>
    some (cubic ⟨x₁, y₁⟩ ⟨x₂, y₂⟩ ⟨x, y⟩)
  | .cubicTo true, [.number x₂, .number y₂, .number x, .number y] =>
    some (smoothCubic ⟨x₂, y₂⟩ ⟨x, y⟩)
  | .quadraticTo false, [.number x₁, .number y₁, .number x, .number y] =>
    some (quadratic ⟨x₁, y₁⟩ ⟨x, y⟩)
  | .quadraticTo true, [.number x, .number y] => some (smoothQuadratic ⟨x, y⟩)
  | .arcTo,
      [.number rx, .number ry, .number degrees, .flag large, .flag sweep, .number x, .number y] =>
    some (arc rx ry degrees large sweep ⟨x, y⟩)
  | _, _ => none

end Step

/-- The steps of the groups of a command: the first group is for the command itself, the others for
the one that follows it. -/
def stepsOfGroups (command : PathCommand) (arguments : List Char) :
    List (List (Argument α)) → Except PathFlaw (List (Step α))
  | [] => .ok []
  | group :: groups =>
    match Step.ofGroup? command group with
    | none => .error (.incompleteGroup command.arity arguments)
    | some step =>
      match stepsOfGroups command.following arguments groups with
      | .error flaw => .error flaw
      | .ok steps => .ok (step :: steps)

/-- The steps of an instruction. -/
def PathInstruction.steps (instruction : PathInstruction) : Except PathFlaw (List (Step α)) :=
  match instruction.command with
  | .closePath =>
    if instruction.arguments.all Text.isSeparator then .ok [.close]
    else .error (.closeArguments instruction.arguments)
  | command =>
    match readGroups command.slots instruction.arguments with
    | .error flaw => .error (.arguments flaw)
    | .ok [] => .error (.missingArguments command.arity)
    | .ok groups => stepsOfGroups command instruction.arguments groups

namespace PathState

/-- The state in which a path is begun. -/
def initial : PathState α := ⟨.origin, .origin, none⟩

/-- The point that a pair of coordinates means. -/
def resolve (state : PathState α) : CoordinateMode → Point α → Point α
  | .absolute, p => p
  | .relative, p => state.current + p

/-- The control point that a smooth curve implies: the last control point mirrored through the current
point if a curve of the same family ends there, and the current point otherwise. -/
def impliedControl (state : PathState α) (family : CurveFamily) : Point α :=
  match state.control with
  | some (last, control) => if last = family then state.current.reflect control else state.current
  | none => state.current

/-- The segment of a step, and the state behind it. -/
def advance (state : PathState α) (mode : CoordinateMode) (step : Step α) :
    Segment α × PathState α :=
  let here := state.current
  let at' (p : Point α) : Point α := state.resolve mode p
  let lineTo (stop : Point α) : Segment α × PathState α :=
    (.line here stop, { state with current := stop, control := none })
  match step with
  | .move stop =>
    let stop := at' stop
    (.move stop, ⟨stop, stop, none⟩)
  | .line stop => lineTo (at' stop)
  | .horizontal x =>
    match mode with
    | .absolute => lineTo ⟨x, here.y⟩
    | .relative => lineTo ⟨here.x + x, here.y⟩
  | .vertical y =>
    match mode with
    | .absolute => lineTo ⟨here.x, y⟩
    | .relative => lineTo ⟨here.x, here.y + y⟩
  | .cubic control₁ control₂ stop =>
    (.cubic here (at' control₁) (at' control₂) (at' stop),
      { state with current := at' stop, control := some (.cubic, at' control₂) })
  | .smoothCubic control₂ stop =>
    (.cubic here (state.impliedControl .cubic) (at' control₂) (at' stop),
      { state with current := at' stop, control := some (.cubic, at' control₂) })
  | .quadratic control stop =>
    (.quadratic here (at' control) (at' stop),
      { state with current := at' stop, control := some (.quadratic, at' control) })
  | .smoothQuadratic stop =>
    let control := state.impliedControl .quadratic
    (.quadratic here control (at' stop),
      { state with current := at' stop, control := some (.quadratic, control) })
  | .arc rx ry degrees large sweep stop =>
    (.arc here { rx, ry, rotation := Scalar.ofDegrees degrees, large, sweep, stop := at' stop },
      { state with current := at' stop, control := none })
  | .close => (.close here state.start, { state with current := state.start, control := none })

/-- The segments of steps taken one behind the other, and the state behind them. -/
def advanceAll (state : PathState α) (mode : CoordinateMode) :
    List (Step α) → List (Segment α) × PathState α
  | [] => ([], state)
  | step :: steps =>
    let (segment, next) := state.advance mode step
    let (segments, last) := next.advanceAll mode steps
    (segment :: segments, last)

/-- The segments of instructions followed one behind the other, and the state behind the last that
can be followed. -/
def follow (state : PathState α) :
    List PathInstruction → Except PathFlaw (List (Segment α)) × PathState α
  | [] => (.ok [], state)
  | instruction :: instructions =>
    match instruction.steps (α := α) with
    | .error flaw => (.error flaw, state)
    | .ok steps =>
      let (segments, next) := state.advanceAll instruction.mode steps
      let (later, last) := next.follow instructions
      (later.map (segments ++ ·), last)

/-- The segments of path data, which begins with a move unless it is empty, and the state behind the
last instruction that can be followed. -/
def run (state : PathState α) (data : List Char) :
    Except PathFlaw (List (Segment α)) × PathState α :=
  match PathInstruction.readAll data with
  | .error flaw => (.error flaw, state)
  | .ok instructions =>
    match instructions with
    | [] => (.ok [], state)
    | first :: _ =>
      if first.command = .moveTo then state.follow instructions
      else (.error (.missingMove first.command), state)

end PathState

end PenPlot
