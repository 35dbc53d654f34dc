import PenPlot.Shape.Flatten

/-!
# Drawing shapes

A shape is drawn with a pencil: attributes are read, and along the edges of the outline commands go to
a sink. A fault ends the drawing, and what has been sent before it stays sent, so it matters that
nothing is sent of a shape before all that can be at fault has been read. Lengths are never at fault,
and a line sends its move before it reads where it ends; all other outlines are read as a whole.
-/

namespace PenPlot

/-- What is at hand while a shape is drawn. -/
structure Pencil (α τ : Type) where
  /-- Where the edge before ended. -/
  tip : Point α
  /-- The state of the sink that the commands go to. -/
  receiver : τ
  /-- The warnings, in order. -/
  warnings : List (LengthWarning α)

/-- Steps of drawing. What a step has done is not undone by a fault. -/
abbrev Drawing (α τ : Type) := EStateM (Fault α) (Pencil α τ)

namespace Drawing

variable {α τ β : Type}

/-- Reads attributes. -/
def read (reading : Reading α β) : Drawing α τ β := fun pencil =>
  let pencil := { pencil with warnings := pencil.warnings ++ reading.warnings }
  match reading.result with
  | .error fault => .error fault pencil
  | .ok value => .ok value pencil

variable [Scalar α]

/-- Sends the commands that draw an edge from where the pencil is. -/
def follow (flattener : Flattener) (transform : Affine α) (sink : Sink α τ) (edge : Edge α) :
    Drawing α τ Unit :=
  modify fun pencil =>
    { pencil with
      tip := edge.target flattener pencil.tip
      receiver := sink.receiveAll pencil.receiver (edge.commands flattener transform pencil.tip) }

/-- Sends the commands that draw edges, one behind the other. -/
def followAll (flattener : Flattener) (transform : Affine α) (sink : Sink α τ) :
    List (Edge α) → Drawing α τ Unit
  | [] => pure ()
  | edge :: edges => do
    follow flattener transform sink edge
    followAll flattener transform sink edges

end Drawing

open Drawing in
/-- Draws a shape with given attributes. -/
def Flattener.drawShape {α τ : Type} [Scalar α] (flattener : Flattener) (sink : Sink α τ)
    (kind : ShapeKind) (attributes : List Char) (transform : Affine α) : Drawing α τ Unit :=
  match kind with
  | .line => do
    let x₁ ← read (.length attributes "x1")
    let y₁ ← read (.length attributes "y1")
    follow flattener transform sink (.move ⟨x₁, y₁⟩)
    let x₂ ← read (.length attributes "x2")
    let y₂ ← read (.length attributes "y2")
    follow flattener transform sink (.line ⟨x₂, y₂⟩)
  | kind => do
    let outline ← read (Outline.ofShape kind attributes)
    followAll flattener transform sink outline

end PenPlot
