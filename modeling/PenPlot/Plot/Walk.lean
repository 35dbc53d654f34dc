import PenPlot.Markup.Element
import PenPlot.Plot.Tally
import PenPlot.Shape.Drawing
import PenPlot.Shape.Window

/-!
# Walking through a document

The elements of a document are visited in order, and the content of a container after the container.
Every visit happens in a scope: the transform of the containers around, their number, and whether a
drawing is among them. The outermost drawing fits its window into the canvas and puts its view box in
force; a drawing inside another only shifts its content; a group adds its transform. A shape inside a
drawing is drawn, and one outside is skipped with a warning. What a shape holds is not visited, and an
unrecognized tag means nothing.

One tracker stands between all shapes and the sink. It begins with the first view box and is kept to
the end, over all drawings. The walk stops at the first fault, and whatever was sent and counted up to
there remains.
-/

namespace PenPlot

/-- What documents are drawn on, and how finely. -/
structure Sheet (α : Type) where
  /-- The extent of the canvas. -/
  canvas : Size α
  /-- How shapes are flattened. -/
  flattener : Flattener
  deriving DecidableEq, Repr

/-- Where in the tree of elements a visit happens. -/
structure Scope (α : Type) where
  /-- The product of the transforms of the containers around. -/
  transform : Affine α
  /-- How many containers are around. -/
  depth : Nat
  /-- A drawing is among them. -/
  inside : Bool
  deriving DecidableEq, Repr

/-- What is worth a warning. -/
inductive Warning (α : Type) where
  /-- A length was not read as it stands. -/
  | length (warning : LengthWarning α)
  /-- A shape outside every drawing was skipped. -/
  | orphan (kind : ShapeKind)
  deriving Repr

/-- The wording of a warning. -/
def Warning.message : Warning Float → String
  | length warning => warning.message
  | orphan kind => "<" ++ kind.name ++ "> outside of any <svg> skipped"

/-- The visit of an element. -/
structure Visit where
  /-- What the element is taken as. -/
  kind : ElementKind
  /-- Its attribute text. -/
  attributes : List Char
  /-- How many containers are around it. -/
  depth : Nat
  deriving DecidableEq, Repr

/-- How far a walk has come. -/
structure Progress (α σ : Type) where
  /-- The tracker, from the first view box on. -/
  tracker : Option (Tracker α) := none
  /-- The state of the sink. -/
  receiver : σ
  /-- What was counted, apart from what the tracker counts. -/
  tally : Tally := {}
  /-- The visits, in order. -/
  visits : Array Visit := #[]
  /-- The warnings, in order. -/
  warnings : Array (Warning α) := #[]
  deriving Repr

/-- Steps of a walk. What a step has done is not undone by a fault. -/
abbrev Walking (α σ : Type) := EStateM (Fault α) (Progress α σ)

variable {α σ : Type} [Scalar α]

namespace Scope

/-- The scope of the elements that no container holds. -/
def root : Scope α := ⟨.identity, 0, false⟩

/-- The scope of the content of a container with a given transform of its own. -/
def enter (scope : Scope α) (kind : ContainerKind) (own : Affine α) : Scope α where
  transform := scope.transform.comp own
  depth := scope.depth + 1
  inside := scope.inside || kind == .svg

end Scope

/-- The transform that an element's own attribute gives. -/
def ownTransform (elementName : String) (attributes : List Char) : Reading α (Affine α) :=
  match attribute? "transform".toList attributes with
  | some text => .located elementName "transform" ((Affine.readList text).mapError .ofTransform)
  | none => .ok .identity

/-- The transform of a container's own, and the view box that it puts in force, if it does. -/
def Sheet.containerTransform (sheet : Sheet α) (scope : Scope α) (kind : ContainerKind)
    (attributes : List Char) : Reading α (Affine α × Option (ViewBox α)) :=
  match kind with
  | .svg =>
    if scope.inside then do
      let x ← .length attributes "x"
      let y ← .length attributes "y"
      pure (.translate x y, none)
    else do
      let window ← Window.ofAttributes attributes sheet.canvas
      let (fit, box) := window.fit sheet.canvas
      pure (fit, some box)
  | .group => do
    let own ← ownTransform kind.name attributes
    pure (own, none)

namespace Progress

/-- What the tracker has counted. -/
def penCounts (progress : Progress α σ) : PenCounts :=
  match progress.tracker with
  | some tracker => tracker.counts
  | none => {}

/-- The progress with one more visit. -/
def noted (progress : Progress α σ) (visit : Visit) : Progress α σ :=
  { progress with
    tally := progress.tally.named visit.kind.name
    visits := progress.visits.push visit }

/-- All that was counted. -/
def total (progress : Progress α σ) : Tally := { progress.tally with pen := progress.penCounts }

end Progress

namespace Walking

/-- Takes note of a visit. -/
def note (visit : Visit) : Walking α σ Unit :=
  modify fun progress => progress.noted visit

/-- Counts. -/
def count (more : Tally → Tally) : Walking α σ Unit :=
  modify fun progress => { progress with tally := more progress.tally }

/-- Warns. -/
def warn (warnings : List (Warning α)) : Walking α σ Unit :=
  modify fun progress => { progress with warnings := progress.warnings ++ warnings.toArray }

/-- Reads attributes. -/
def read {β : Type} (reading : Reading α β) : Walking α σ β := do
  warn (reading.warnings.map .length)
  match reading.result with
  | .error fault => throw fault
  | .ok value => pure value

/-- Puts a view box in force. The first one makes a tracker. -/
def putInForce (box : ViewBox α) : Walking α σ Unit :=
  modify fun progress =>
    { progress with tracker := some ((progress.tracker.getD (.ofBox box)).setBox box) }

/-- Draws with a tracker in front of the sink. -/
def draw (tracker : Tracker α) (drawing : Drawing α (Tracker α × σ) Unit) : Walking α σ Unit :=
  fun ⟨_, receiver, tally, visits, warnings⟩ =>
    let behind (pencil : Pencil α (Tracker α × σ)) : Progress α σ :=
      { tracker := some pencil.receiver.1, receiver := pencil.receiver.2, tally, visits
        warnings := warnings ++ (pencil.warnings.map Warning.length).toArray }
    match drawing.run ⟨.origin, (tracker, receiver), []⟩ with
    | .ok _ pencil => .ok () (behind pencil)
    | .error fault pencil => .error fault (behind pencil)

/-- Enters a container. -/
def enter (sheet : Sheet α) (scope : Scope α) (kind : ContainerKind) (attributes : List Char) :
    Walking α σ (Scope α) := do
  count Tally.oneContainer
  let (own, box?) ← read (sheet.containerTransform scope kind attributes)
  match box? with
  | some box => putInForce box
  | none => pure ()
  pure (scope.enter kind own)

/-- Draws a shape if it is inside a drawing. -/
def shape (sheet : Sheet α) (sink : Sink α σ) (scope : Scope α) (kind : ShapeKind)
    (attributes : List Char) : Walking α σ Unit := do
  match (← get).tracker, scope.inside with
  | some tracker, true =>
    count Tally.oneShape
    let own ← read (ownTransform kind.name attributes)
    draw tracker <|
      sheet.flattener.drawShape (Tracker.filter sink) kind attributes (scope.transform.comp own)
  | _, _ =>
    warn [.orphan kind]
    count Tally.oneOrphan

/-- Visits an element. The scope of its content is given if the content is to be visited. -/
def visit (sheet : Sheet α) (sink : Sink α σ) (scope : Scope α) (kind : ElementKind)
    (attributes : List Char) : Walking α σ (Option (Scope α)) := do
  note ⟨kind, attributes, scope.depth⟩
  match kind with
  | .container kind =>
    let inner ← enter sheet scope kind attributes
    pure (some inner)
  | .shape kind =>
    shape sheet sink scope kind attributes
    pure none
  | .unrecognized =>
    count Tally.oneUnrecognized
    pure none

/-- Visits the elements of markup in a scope. -/
def visitAll (sheet : Sheet α) (sink : Sink α σ) (scope : Scope α) (markup : Markup) :
    Walking α σ Unit :=
  match h : markup.take? with
  | .error flaw => throw (.markup flaw)
  | .ok none => pure ()
  | .ok (some (element, rest)) =>
    have := Markup.length_take?_lt h
    do
      match ← visit sheet sink scope element.kind element.attributes with
      | some inner => visitAll sheet sink inner element.content
      | none => pure ()
      visitAll sheet sink scope rest
termination_by markup.tags.length

end Walking

/-- The walk through a document with a sink: what was counted if it comes to the end, or the fault at
which it stops, and how far it comes. -/
def walkThrough (sheet : Sheet α) (sink : Sink α σ) (receiver : σ) (document : List Char) :
    Except (Fault α) Tally × Progress α σ :=
  match (Walking.visitAll sheet sink .root (.scan document)).run { receiver } with
  | .ok _ progress => (.ok progress.total, progress)
  | .error fault progress => (.error fault, progress)

end PenPlot
