import PenPlot.Decimal.Text
import PenPlot.Plot.Pen

/-!
# Command files

A command file has one line for each command of the pen: a letter for moves or strokes, and the
coordinates with three places behind the point. It is written to a device that may refuse a line at
any time, and also break off in the middle of one. Nothing is written after the first refusal, not
even if the device would take it; the refusal is reported when the file is finished.
-/

namespace PenPlot

/-- Why reading or writing fails. -/
inductive IoFault where
  /-- There is no such file, or no directory to hold it. -/
  | notFound
  /-- The content of a file is not text. -/
  | invalidData
  /-- The reader at the other end is gone. -/
  | brokenPipe
  /-- An answer did not come in time. -/
  | timedOut
  deriving DecidableEq, Repr

/-- What a device answers to a line. Its faults may be of any kind. -/
inductive WriteAnswer (ε : Type := IoFault) where
  /-- The line is written. -/
  | written
  /-- Only the first `taken` characters are written. -/
  | refused (taken : Nat) (fault : ε)
  deriving DecidableEq, Repr

/-- A device that lines are written to. -/
structure Device (σ : Type) (ε : Type := IoFault) where
  /-- What the device answers to a line, and its state then. -/
  write : List Char → σ → WriteAnswer ε × σ
  /-- The state when everything written is stored, unless that fails. -/
  flush : σ → Except ε σ

/-- A device that takes so many lines, all if there is no limit, and whose flushing may fail. Its
state is how many lines it has taken. -/
def Device.limited (limit : Option Nat) (flushFault : Option IoFault) : Device Nat where
  write _ taken :=
    match limit with
    | none => (.written, taken + 1)
    | some limit =>
      if taken < limit then (.written, taken + 1) else (.refused 0 .brokenPipe, taken)
  flush taken :=
    match flushFault with
    | some fault => .error fault
    | none => .ok taken

/-- How many places a coordinate has behind the point. -/
def coordinatePlaces : Nat := 3

/-- The line of a command. -/
def PenCommand.line (command : PenCommand Float) : List Char :=
  let coordinate (x : Float) : List Char := (Decimal.fixed coordinatePlaces x).toList
  (if command.isDraw then 'D' else 'M') :: ' ' :: coordinate command.point.x ++
    ' ' :: coordinate command.point.y ++ ['\n']

/-- A command file that is being written. -/
structure CommandFile (σ : Type) (ε : Type := IoFault) where
  /-- The state of the device. -/
  device : σ
  /-- Everything that the device has taken. -/
  text : String := ""
  /-- How many lines are written completely. -/
  lines : Nat := 0
  /-- The first refusal. -/
  fault : Option ε := none
  deriving Repr

namespace CommandFile

variable {σ ε : Type}

/-- Writes the line of a command, unless a line was refused before. -/
def write (device : Device σ ε) (file : CommandFile σ ε) (command : PenCommand Float) :
    CommandFile σ ε :=
  match file.fault with
  | some _ => file
  | none =>
    let line := command.line
    match device.write line file.device with
    | (.written, state) =>
      { file with
        device := state, text := file.text ++ String.ofList line, lines := file.lines + 1 }
    | (.refused taken fault, state) =>
      { file with
        device := state
        text := file.text ++ String.ofList (line.take taken)
        fault := some fault }

/-- The sink that writes to a device. -/
def sink (device : Device σ ε) : Sink Float (CommandFile σ ε) where
  onMove place file := file.write device (.move place)
  onDraw place file := file.write device (.draw place)

/-- The file as it is handed back when everything is written and stored, or else why it is not. -/
def finish (device : Device σ ε) (file : CommandFile σ ε) : Except ε (CommandFile σ ε) :=
  match file.fault with
  | some fault => .error fault
  | none =>
    match device.flush file.device with
    | .error fault => .error fault
    | .ok stored => .ok { file with device := stored }

end CommandFile

end PenPlot
