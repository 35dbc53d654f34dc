import PenPlot.Fault
import PenPlot.Plot.Pass
import PenPlot.Text.JsonString

/-!
# Traces

A trace reports passes line by line, and each line is a JSON object. A pass writes one line for each
element that it takes, then a line for its fault if it has one, and then a line with its counts. Every
line bears the number of its pass; passes are numbered from zero.
-/

namespace PenPlot

/-- What a member of a reported object holds. -/
inductive TraceValue where
  /-- A count. -/
  | number (value : Nat)
  /-- A text. -/
  | text (value : List Char)
  /-- Counts by name. -/
  | counts (value : List (String × Nat))
  deriving DecidableEq, Repr

namespace TraceValue

/-- The text between quotation marks. -/
def quoted (text : List Char) : List Char := '"' :: Text.jsonEscape text ++ ['"']

/-- Members of an object between braces, of which each is given by its name and the text of its
value. -/
def object (members : List (String × List Char)) : List Char :=
  let written := members.map fun (name, value) => quoted name.toList ++ ':' :: value
  '\x7b' :: List.intercalate [','] written ++ ['\x7d']

/-- The value as it is written. -/
def written : TraceValue → List Char
  | number value => Nat.toDigits 10 value
  | text value => quoted value
  | counts value => object (value.map fun (name, n) => (name, Nat.toDigits 10 n))

end TraceValue

/-- A line of a trace. -/
structure TraceLine where
  /-- The kind of the line. -/
  kind : String
  /-- The number of the pass. -/
  pass : Nat
  /-- What is reported. -/
  members : List (String × TraceValue)
  deriving DecidableEq, Repr

namespace TraceLine

/-- The line for an element. -/
def ofElement (pass depth : Nat) (name attributes : List Char) : TraceLine where
  kind := "svgpen.element"
  pass := pass
  members :=
    [("depth", .number depth), ("element", .text name), ("attributes", .text (Text.trim attributes))]

/-- The line for a fault, by its wording. -/
def ofMessage (pass : Nat) (message : List Char) : TraceLine where
  kind := "svgpen.error"
  pass := pass
  members := [("message", .text message)]

/-- The line for the visit of an element. -/
def ofVisit (pass : Nat) (visit : Visit) : TraceLine :=
  ofElement pass visit.depth visit.kind.name.toList visit.attributes

/-- The line for a fault. -/
def ofFault (pass : Nat) (fault : Fault Float) : TraceLine := ofMessage pass fault.message.toList

/-- The line that closes a pass. -/
def ofTally (pass : Nat) (tally : Tally) : TraceLine where
  kind := "svgpen.summary"
  pass := pass
  members := [("counts", .counts tally.entries)]

/-- The lines of a pass. -/
def ofPass (number : Nat) (pass : Pass Float) : List TraceLine :=
  pass.walk.visits.map (ofVisit number) ++ pass.walk.fault.toList.map (ofFault number) ++
    [ofTally number pass.tally]

/-- The line as it is written. -/
def written (line : TraceLine) : List Char :=
  TraceValue.object <|
    ("type", TraceValue.quoted line.kind.toList) :: ("pass", Nat.toDigits 10 line.pass) ::
      line.members.map fun (name, value) => (name, value.written)

end TraceLine

/-- A trace up to now. -/
structure Trace where
  /-- How many passes have been reported. -/
  passes : Nat := 0
  /-- The lines that have been written. -/
  lines : List TraceLine := []
  deriving DecidableEq, Repr

/-- The trace with one more pass. -/
def Trace.report (trace : Trace) (pass : Pass Float) : Trace where
  passes := trace.passes + 1
  lines := trace.lines ++ TraceLine.ofPass trace.passes pass

end PenPlot
