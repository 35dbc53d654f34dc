import PenPlot.Decimal.Text
import PenPlot.Plot.Trace

/-!
# Trace files

A trace is told of a pass while it is made: of every element that is visited, of the fault if there is
one, and of the end. Whatever it is told becomes one line of its file. The line that closes a pass also
gives the time that the pass took, which is not a matter of the document, so that it is left out where
traces are compared.
-/

namespace PenPlot

/-- A span of time, as a clock gives it. -/
structure TimeSpan where
  /-- Whole seconds. -/
  seconds : UInt64
  /-- Billionths of a second on top of them. -/
  nanoseconds : UInt32
  nanoseconds_lt : nanoseconds.toNat < 1000000000
  deriving DecidableEq, Repr

/-- The span in thousandths of a second. -/
def TimeSpan.milliseconds (span : TimeSpan) : Float :=
  (span.seconds.toFloat + span.nanoseconds.toFloat / 1000000000) * 1000

/-- How many places a time in milliseconds has behind the point. -/
def timePlaces : Nat := 3

/-- The line with more members in front of what is reported. -/
def TraceLine.writtenWith (line : TraceLine) (more : List (String × List Char)) : List Char :=
  TraceValue.object <|
    ("type", TraceValue.quoted line.kind.toList) :: ("pass", Nat.toDigits 10 line.pass) ::
      (more ++ line.members.map fun (name, value) => (name, value.written))

/-- What a trace is told. -/
inductive TraceEvent where
  /-- An element is visited. -/
  | element (depth : Nat) (name attributes : List Char)
  /-- A fault is met. -/
  | fault (message : List Char)
  /-- The pass is over. -/
  | finished (took : TimeSpan) (tally : Tally)
  deriving DecidableEq, Repr

namespace TraceEvent

/-- What is reported of a pass. -/
def report (pass : Nat) : TraceEvent → TraceLine
  | element depth name attributes => .ofElement pass depth name attributes
  | fault message => .ofMessage pass message
  | finished _ tally => .ofTally pass tally

/-- The time, where a line gives one. -/
def time : TraceEvent → List (String × List Char)
  | finished took _ => [("ms", (Decimal.fixed timePlaces took.milliseconds).toList)]
  | _ => []

/-- The line that is written, without its end. -/
def line (pass : Nat) (event : TraceEvent) : List Char := (event.report pass).writtenWith event.time

/-- The file with one more line. -/
def writeTo (file : List Char) (pass : Nat) (event : TraceEvent) : List Char :=
  file ++ event.line pass ++ ['\n']

/-- The file that what is told of numbered passes makes. -/
def fileOf (events : List (Nat × TraceEvent)) : List Char :=
  events.foldl (fun file (pass, event) => event.writeTo file pass) []

/-- What a trace is told of a pass. -/
def ofPass (took : TimeSpan) (pass : Pass Float) : List TraceEvent :=
  (pass.walk.visits.map fun visit =>
      element visit.depth visit.kind.name.toList visit.attributes) ++
    (pass.walk.fault.toList.map fun met => fault met.message.toList) ++ [finished took pass.tally]

end TraceEvent

/-- Where traces are compared, lines have no more members than are reported. -/
theorem TraceLine.written_eq (line : TraceLine) : line.written = line.writtenWith [] := rfl

/-- What a trace is told of a pass is what is reported of it. -/
theorem TraceEvent.report_ofPass (took : TimeSpan) (number : Nat) (pass : Pass Float) :
    (ofPass took pass).map (report number) = TraceLine.ofPass number pass := by
  rw [ofPass, TraceLine.ofPass, List.map_append, List.map_append, List.map_map, List.map_map]
  rfl

end PenPlot
