import PenPlot.Number.List

/-!
# Path instructions

Path data is a list of instructions: a command letter, a capital for absolute coordinates and a small
letter for relative ones, and the text of its arguments up to the next command letter. The exponent
letter of a number is not among the command letters, so no number is cut apart.
-/

namespace PenPlot

/-- The commands of path data. -/
inductive PathCommand where
  /-- Puts the pen down at a point, where a new subpath starts. -/
  | moveTo
  /-- A straight line. -/
  | lineTo
  /-- A straight line that keeps the ordinate. -/
  | horizontalLineTo
  /-- A straight line that keeps the abscissa. -/
  | verticalLineTo
  /-- A cubic curve; the first control point of a smooth one is implied. -/
  | cubicTo (smooth : Bool)
  /-- A quadratic curve; the control point of a smooth one is implied. -/
  | quadraticTo (smooth : Bool)
  /-- An elliptical arc. -/
  | arcTo
  /-- A straight line back to the start of the subpath. -/
  | closePath
  deriving DecidableEq, Repr

/-- What the coordinates of an instruction are relative to. -/
inductive CoordinateMode where
  /-- To the origin. -/
  | absolute
  /-- To the current point. -/
  | relative
  deriving DecidableEq, Repr

/-- A command with the text of its arguments. -/
structure PathInstruction where
  /-- The command. -/
  command : PathCommand
  /-- What its coordinates are relative to. -/
  mode : CoordinateMode
  /-- The text between its letter and the next one. -/
  arguments : List Char
  deriving DecidableEq, Repr

/-- Why path data cannot be followed. -/
inductive PathFlaw where
  /-- The data does not begin with a command letter. -/
  | missingCommand (rest : List Char)
  /-- The first command is not the one that puts the pen down. -/
  | missingMove (found : PathCommand)
  /-- The closing of a subpath has arguments. -/
  | closeArguments (arguments : List Char)
  /-- The last group of arguments is shorter than the command needs. -/
  | incompleteGroup (arity : Nat) (arguments : List Char)
  /-- There are no arguments. -/
  | missingArguments (arity : Nat)
  /-- The arguments are not the numbers and flags that the command needs. -/
  | arguments (flaw : ListFlaw)
  deriving DecidableEq, Repr

namespace PathCommand

/-- The letter for absolute coordinates. -/
def letter : PathCommand → Char
  | moveTo => 'M'
  | lineTo => 'L'
  | horizontalLineTo => 'H'
  | verticalLineTo => 'V'
  | cubicTo false => 'C'
  | cubicTo true => 'S'
  | quadraticTo false => 'Q'
  | quadraticTo true => 'T'
  | arcTo => 'A'
  | closePath => 'Z'

/-- All commands. -/
def all : List PathCommand :=
  [moveTo, lineTo, horizontalLineTo, verticalLineTo, cubicTo false, cubicTo true, quadraticTo false,
    quadraticTo true, arcTo, closePath]

/-- The name of a command in messages. -/
def label : PathCommand → String
  | moveTo => "MoveTo"
  | lineTo => "LineTo"
  | horizontalLineTo => "HorizontalLineTo"
  | verticalLineTo => "VerticalLineTo"
  | cubicTo smooth => "CubicBezierTo \x7b smooth: " ++ toString smooth ++ " \x7d"
  | quadraticTo smooth => "QuadraticBezierTo \x7b smooth: " ++ toString smooth ++ " \x7d"
  | arcTo => "ArcTo"
  | closePath => "ClosePath"

/-- What one group of arguments holds. -/
def slots : PathCommand → List Slot
  | moveTo | lineTo | quadraticTo true => [.number, .number]
  | horizontalLineTo | verticalLineTo => [.number]
  | cubicTo true | quadraticTo false => [.number, .number, .number, .number]
  | cubicTo false => [.number, .number, .number, .number, .number, .number]
  | arcTo => [.number, .number, .number, .flag, .flag, .number, .number]
  | closePath => []

/-- How many arguments one group holds. -/
def arity (command : PathCommand) : Nat := command.slots.length

/-- The command that the second and all later groups of arguments are for: further points behind the
start of a subpath are ends of straight lines. -/
def following : PathCommand → PathCommand
  | moveTo => lineTo
  | command => command

end PathCommand

/-- The name of a mode. -/
def CoordinateMode.label : CoordinateMode → String
  | absolute => "Absolute"
  | relative => "Relative"

/-- The wording of a flaw. -/
def PathFlaw.message : PathFlaw → String
  | missingCommand rest => "expected a command letter at " ++ Text.quoted rest
  | missingMove found => "path data must begin with a moveto, found " ++ found.label
  | closeArguments text => "close path takes no arguments: " ++ Text.quoted text
  | incompleteGroup arity text =>
    s!"command needs groups of {arity} numbers, got " ++ Text.quoted (Text.trim text)
  | missingArguments arity => s!"command is missing its {arity} arguments"
  | arguments flaw => flaw.message

/-- The letter of a command in a mode. -/
def commandLetter (command : PathCommand) (mode : CoordinateMode) : Char :=
  match mode with
  | .absolute => command.letter
  | .relative => command.letter.toLower

/-- The command and the mode that a letter stands for, if it is a command letter. -/
def commandOfLetter? (c : Char) : Option (PathCommand × CoordinateMode) :=
  (PathCommand.all.find? fun command => command.letter == c.toUpper).map fun command =>
    (command, if c.isUpper then .absolute else .relative)

namespace PathInstruction

/-- The instruction as it is written. -/
def text (instruction : PathInstruction) : List Char :=
  commandLetter instruction.command instruction.mode :: instruction.arguments

/-- The text before the first command letter, and the instructions from there on. -/
def split : List Char → List Char × List PathInstruction
  | [] => ([], [])
  | c :: rest =>
    let (before, later) := split rest
    match commandOfLetter? c with
    | some (command, mode) => ([], ⟨command, mode, before⟩ :: later)
    | none => (c :: before, later)

/-- The instructions of path data. Blanks and commas before the first are passed over. -/
def readAll (data : List Char) : Except PathFlaw (List PathInstruction) :=
  let text := Text.skipSeparators data
  match split text with
  | ([], instructions) => .ok instructions
  | (_ :: _, _) => .error (.missingCommand text)

end PathInstruction

end PenPlot
