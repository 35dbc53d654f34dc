import PenPlot.Markup.Source
import PenPlot.Plot.Trace
import PenPlot.Preview.Bitmap
import PenPlot.Settings

/-!
# Sessions

A plotter is asked for passes one after the other, and reports each of them in its trace if it keeps
one. Whatever is asked for, be it commands, counts, a command file or a preview, comes from passes
that do not know of each other; only the trace connects them, by the numbers of the passes.
-/

namespace PenPlot

/-- A plotter and its trace up to now, if it keeps one. -/
structure Session where
  /-- The plotter. -/
  plotter : Plotter
  /-- The trace. -/
  trace : Option Trace

namespace Session

/-- The session of a plotter that has not been asked for anything. -/
def start (plotter : Plotter) : Session := ⟨plotter, plotter.tracePath.map fun _ => {}⟩

/-- One pass over a document. -/
def interpret (session : Session) (document : List Char) : Pass Float × Session :=
  let pass := Pass.ofText session.plotter.sheet document
  (pass, { session with trace := session.trace.map (·.report pass) })

/-- One pass over a source text. -/
def interpretSource (session : Session) (source : List Char) : Pass Float × Session :=
  session.interpret (Source.prepare source)

/-- One pass over the source text that a file holds, if the file is there and holds text. -/
def interpretFile (session : Session) (content : Option ByteArray) :
    Except IoFault (Pass Float × Session) :=
  match content with
  | none => .error .notFound
  | some bytes =>
    match String.fromUTF8? bytes with
    | none => .error .invalidData
    | some source => .ok (session.interpretSource source.toList)

/-- One pass over each of several documents, in order. -/
def interpretAll (session : Session) : List (List Char) → List (Pass Float) × Session
  | [] => ([], session)
  | document :: documents =>
    let (pass, session) := session.interpret document
    let (passes, session) := session.interpretAll documents
    (pass :: passes, session)

/-- The tallies of passes and their sum, or the fault of the first that has one. -/
def measure (passes : List (Pass Float)) : Except (Fault Float) (List Tally × Tally) := do
  let tallies ← passes.mapM Pass.result
  pure (tallies, Tally.total tallies)

/-- A command file of a document, written to a device. -/
def commandFile {σ : Type} (session : Session) (device : Device σ) (state : σ)
    (document : List Char) : Except Failure (Tally × String) × Pass Float × Session :=
  let (pass, session) := session.interpret document
  let file := (CommandFile.sink device).receiveAll { device := state } pass.commands
  let result : Except Failure (Tally × String) :=
    match pass.result with
    | .error fault => .error (.document fault)
    | .ok tally => ((file.finish device).mapError .io).map fun file => (tally, file.text)
  (result, pass, session)

/-- A preview of a document by a stroker, if there is a surface for it, and the passes that it takes: the
first counts the strokes, and the second draws them. -/
def preview {σ : Type} (session : Session) (stroker : Stroker Float σ)
    (surface : Except PictureFlaw σ) (document : List Char) :
    Except Failure σ × List (Pass Float) × Session :=
  let (counted, session) := session.interpret document
  match counted.walk.fault with
  | some fault => (.error (.document fault), [counted], session)
  | none =>
    match surface with
    | .error flaw => (.error (.settings (.picture flaw)), [counted], session)
    | .ok surface =>
      let (_, draws) := Sink.counting.receiveAll (0, 0) counted.commands
      let (drawn, session) := session.interpret document
      let pen :=
        (SurfacePen.sink stroker (HuePen.step draws)).receiveAll (.initial surface) drawn.commands
      let result : Except Failure σ :=
        match drawn.walk.fault with
        | some fault => .error (.document fault)
        | none => .ok pen.surface
      (result, [counted, drawn], session)

/-- A picture of a document, and the passes that it takes. -/
def render (session : Session) (options : PictureOptions) (document : List Char) :
    Except Failure Picture × List (Pass Float) × Session :=
  session.preview (Picture.stroke options) (Picture.blank session.plotter.sheet.canvas options)
    document

end Session

end PenPlot
