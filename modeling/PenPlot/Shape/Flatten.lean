import PenPlot.Geometry.Curve
import PenPlot.Plot.Pen
import PenPlot.Shape.Outline

/-!
# Flattening outlines

The pen moves along straight lines, so an outline is flattened: every curve is replaced by strokes to
points on it, a fixed number of them at equal steps of the parameter that describes it. A corner takes
a quarter of that number. Straight lines are one stroke, or are subdivided like curves if that is
asked for.

The points are mapped to the canvas by one transform, an arc's ellipse being rotated before.
-/

namespace PenPlot

/-- How finely outlines are flattened. -/
structure Flattener where
  /-- How many strokes a curve takes. -/
  resolution : Nat
  /-- Straight lines take as many strokes as curves. -/
  subdivideLines : Bool
  deriving DecidableEq, Repr

namespace Flattener

/-- The resolution where none is asked for. -/
def defaultResolution : Nat := 100

/-- The flattener where nothing is asked for. -/
def standard : Flattener := ⟨defaultResolution, false⟩

/-- The flattener with at least one stroke to a curve. -/
def ofResolution (resolution : Nat) (subdivideLines : Bool) : Flattener :=
  ⟨max resolution 1, subdivideLines⟩

/-- How many strokes a corner takes. -/
def cornerSteps (flattener : Flattener) : Nat := max (flattener.resolution / 4) 1

end Flattener

variable {α : Type} [Scalar α]

/-- The parameters `1 / n`, `2 / n`, … `n / n`. -/
def fractions (n : Nat) : List α :=
  (List.range n).map fun i => Scalar.ofCount (i + 1) / Scalar.ofCount n

/-- Strokes to points of the document. -/
def strokesTo (transform : Affine α) (points : List (Point α)) : List (PenCommand α) :=
  points.map fun p => .draw (transform.apply p)

/-- The point at an angle of an axis-parallel ellipse. -/
def ellipsePoint (center : Point α) (rx ry angle : α) : Point α :=
  ⟨center.x + rx * Scalar.cos angle, center.y + ry * Scalar.sin angle⟩

/-- Points of an axis-parallel ellipse from one angle to another, without the first. -/
def ellipticalRun (center : Point α) (rx ry first last : α) (steps : Nat) : List (Point α) :=
  (fractions steps).map fun t => ellipsePoint center rx ry (first + (last - first) * t)

/-- Strokes along a part of an ellipse. -/
def EllipticalArc.strokes (arc : EllipticalArc α) (transform : Affine α) (resolution : Nat) :
    List (PenCommand α) :=
  let frame := transform.comp arc.frame
  (fractions resolution).map fun t =>
    .draw (frame.apply (arc.unrotatedPoint (arc.startAngle + arc.deltaAngle * t)))

/-- Strokes along an arc, where a straight one takes a single stroke. -/
def Arc.strokes (arc : Arc α) (start : Point α) (transform : Affine α) (resolution : Nat) :
    List (PenCommand α) :=
  match arc.shape start with
  | .omitted => []
  | .straight => strokesTo transform [arc.stop]
  | .elliptical ellipse => ellipse.strokes transform resolution

namespace Edge

/-- The points at which the strokes along a straight line end. -/
def linePoints (flattener : Flattener) (start stop : Point α) : List (Point α) :=
  if flattener.subdivideLines then (fractions flattener.resolution).map (linearPoint start stop)
  else [stop]

/-- The points of a corner or a loop. -/
def cornerPoints (flattener : Flattener) (center : Point α) (rx ry first last : α) :
    List (Point α) :=
  ellipticalRun center rx ry first last flattener.cornerSteps

/-- The points of a whole ellipse. -/
def loopPoints (flattener : Flattener) (center : Point α) (rx ry : α) : List (Point α) :=
  ellipticalRun center rx ry 0 (-Scalar.turn) flattener.resolution

/-- The commands that draw an edge which starts at `start`. -/
def commands (flattener : Flattener) (transform : Affine α) (start : Point α) :
    Edge α → List (PenCommand α)
  | move stop => [.move (transform.apply stop)]
  | line stop => strokesTo transform (linePoints flattener start stop)
  | quadratic control stop =>
    strokesTo transform ((fractions flattener.resolution).map (quadraticPoint start control stop))
  | cubic control₁ control₂ stop =>
    strokesTo transform
      ((fractions flattener.resolution).map (cubicPoint start control₁ control₂ stop))
  | arc shape =>
    match shape.shape start with
    | .straight => strokesTo transform (linePoints flattener start shape.stop)
    | _ => shape.strokes start transform flattener.resolution
  | corner center rx ry first last =>
    strokesTo transform (cornerPoints flattener center rx ry first last)
  | loop center rx ry => strokesTo transform (loopPoints flattener center rx ry)

/-- The point at which an edge ends. -/
def target (flattener : Flattener) (start : Point α) : Edge α → Point α
  | move stop | line stop | quadratic _ stop | cubic _ _ stop => stop
  | arc shape => shape.stop
  | corner center rx ry first last =>
    (cornerPoints flattener center rx ry first last).getLast?.getD start
  | loop center rx ry => (loopPoints flattener center rx ry).getLast?.getD start

end Edge

namespace Flattener

/-- The commands that draw the edges one behind the other, the first of which starts at `start`. -/
def flattenFrom (flattener : Flattener) (transform : Affine α) :
    Point α → List (Edge α) → List (PenCommand α)
  | _, [] => []
  | start, edge :: edges =>
    edge.commands flattener transform start ++
      flattener.flattenFrom transform (edge.target flattener start) edges

/-- The commands that draw an outline. -/
def flatten (flattener : Flattener) (transform : Affine α) (outline : List (Edge α)) :
    List (PenCommand α) :=
  flattener.flattenFrom transform .origin outline

/-- The commands that draw a shape with given attributes. Nothing is drawn of a shape with a fault. -/
def flattenShape (flattener : Flattener) (kind : ShapeKind) (attributes : List Char)
    (transform : Affine α) : Reading α (List (PenCommand α)) := do
  let outline ← Outline.ofShape kind attributes
  pure (flattener.flatten transform outline)

end Flattener

end PenPlot
