import PenPlot.Path.Segment
import PenPlot.Shape.Reading

/-!
# Outlines of shapes

An outline is what the pen has to follow to draw a shape, in the coordinates of the document: a list
of edges, each of which starts where the edge before it ends. It depends on the attributes of the
shape alone, and not on the transform or the accuracy with which the shape is drawn later.

Rectangles and ellipses are followed from their right side against the sense of growing angles.
-/

namespace PenPlot

/-- A piece of an outline. -/
inductive Edge (α : Type) where
  /-- The pen is lifted to a point. -/
  | move (stop : Point α)
  /-- A straight line. -/
  | line (stop : Point α)
  /-- A quadratic curve. -/
  | quadratic (control stop : Point α)
  /-- A cubic curve. -/
  | cubic (control₁ control₂ stop : Point α)
  /-- An arc as a path gives it. -/
  | arc (shape : Arc α)
  /-- A quarter of an axis-parallel ellipse from one angle to another. -/
  | corner (center : Point α) (rx ry first last : α)
  /-- All of an axis-parallel ellipse, from its rightmost point. -/
  | loop (center : Point α) (rx ry : α)
  deriving DecidableEq, Repr

variable {α : Type} [Scalar α]

/-- The edge that a segment of a path is. -/
def Segment.edge : Segment α → Edge α
  | .move stop => .move stop
  | .line _ stop => .line stop
  | .close _ stop => .line stop
  | .quadratic _ control stop => .quadratic control stop
  | .cubic _ control₁ control₂ stop => .cubic control₁ control₂ stop
  | .arc _ shape => .arc shape

/-- The points whose coordinates are listed one behind the other. -/
def pointsOf : List α → List (Point α)
  | x :: y :: rest => ⟨x, y⟩ :: pointsOf rest
  | _ => []

namespace Outline

/-- Straight lines from point to point, and back to the first if the outline is closed. -/
def polygonal (closed : Bool) : List (Point α) → List (Edge α)
  | [] => []
  | first :: rest => .move first :: rest.map .line ++ if closed then [.line first] else []

/-- The rectangle with a corner at `(x, y)`. -/
def rectangle (x y width height : α) : List (Edge α) :=
  [.move ⟨x + width, y⟩, .line ⟨x, y⟩, .line ⟨x, y + height⟩, .line ⟨x + width, y + height⟩,
    .line ⟨x + width, y⟩]

open Scalar in
/-- The rectangle with a corner at `(x, y)` and with quarter ellipses for corners. -/
def roundedRectangle (x y width height rx ry : α) : List (Edge α) :=
  let left := x + rx
  let right := x + width - rx
  let top := y + ry
  let bottom := y + height - ry
  [.move ⟨right, y⟩, .line ⟨left, y⟩,
    .corner ⟨left, top⟩ rx ry (3 * quarterTurn) pi,
    .line ⟨x, bottom⟩,
    .corner ⟨left, bottom⟩ rx ry pi quarterTurn,
    .line ⟨right, y + height⟩,
    .corner ⟨right, bottom⟩ rx ry quarterTurn 0,
    .line ⟨x + width, top⟩,
    .corner ⟨right, top⟩ rx ry 0 (-quarterTurn)]

/-- The axis-parallel ellipse. -/
def elliptical (center : Point α) (rx ry : α) : List (Edge α) :=
  [.move ⟨center.x + rx, center.y⟩, .loop center rx ry]

/-- The outline of a list of points. -/
def poly (kind : ShapeKind) (closed : Bool) (attributes : List Char) :
    Reading α (List (Edge α)) := do
  let text := (attribute? "points".toList attributes).getD []
  let values ← Reading.located kind.name "points" ((readNumbers text).mapError .ofList)
  if values.length % 2 = 0 then pure (polygonal closed (pointsOf values))
  else .fail (.value ⟨kind.name, "points"⟩ (.oddCount values.length))

/-- The radii of a rectangle's corners: a single one that is given is for both axes. -/
def cornerRadii (attributes : List Char) : Reading α (α × α) := do
  let radius (name : String) : Reading α α := .nonNegative .rect attributes name
  match attribute? "rx".toList attributes, attribute? "ry".toList attributes with
  | none, none => pure (0, 0)
  | some _, none =>
    let r ← radius "rx"
    pure (r, r)
  | none, some _ =>
    let r ← radius "ry"
    pure (r, r)
  | some _, some _ =>
    let rx ← radius "rx"
    let ry ← radius "ry"
    pure (rx, ry)

/-- The outline of a rectangle. One without width or height has none, and no radius is more than half
of the shorter side. -/
def rect (attributes : List Char) : Reading α (List (Edge α)) := do
  let x ← .length attributes "x"
  let y ← .length attributes "y"
  let width ← .nonNegative .rect attributes "width"
  let height ← .nonNegative .rect attributes "height"
  if width == 0 || height == 0 then pure []
  else
    let radii ← cornerRadii attributes
    let limit := Scalar.lesser width height / 2
    let rx := Scalar.lesser radii.1 limit
    let ry := Scalar.lesser radii.2 limit
    if rx == 0 || ry == 0 then pure (rectangle x y width height)
    else pure (roundedRectangle x y width height rx ry)

/-- The outline of an ellipse with given radii, which has none if a radius is zero. -/
def ellipse (rx ry : α) (attributes : List Char) : Reading α (List (Edge α)) := do
  if rx == 0 || ry == 0 then pure []
  else
    let cx ← .length attributes "cx"
    let cy ← .length attributes "cy"
    pure (elliptical ⟨cx, cy⟩ rx ry)

/-- The outline of a path. One without data has none. -/
def path (attributes : List Char) : Reading α (List (Edge α)) :=
  match attribute? "d".toList attributes with
  | none => .ok []
  | some data =>
    .located "path" "d" <|
      (((PathState.initial (α := α)).run data).1.map (·.map Segment.edge)).mapError .ofPath

/-- The outline of a shape with given attributes. -/
def ofShape (kind : ShapeKind) (attributes : List Char) : Reading α (List (Edge α)) :=
  match kind with
  | .line => do
    let x₁ ← .length attributes "x1"
    let y₁ ← .length attributes "y1"
    let x₂ ← .length attributes "x2"
    let y₂ ← .length attributes "y2"
    pure [.move ⟨x₁, y₁⟩, .line ⟨x₂, y₂⟩]
  | .polyline => poly .polyline false attributes
  | .polygon => poly .polygon true attributes
  | .rect => rect attributes
  | .circle => do
    let r ← .nonNegative .circle attributes "r"
    ellipse r r attributes
  | .ellipse => do
    let rx ← .nonNegative .ellipse attributes "rx"
    let ry ← .nonNegative .ellipse attributes "ry"
    ellipse rx ry attributes
  | .path => path attributes

end Outline

end PenPlot
