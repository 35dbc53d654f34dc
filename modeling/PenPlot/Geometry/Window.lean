import PenPlot.Geometry.Affine

/-!
# Windows and view boxes

A document declares the window of the plane that it shows. The window is fitted into the canvas: it
keeps its aspect ratio, fills the canvas along one axis, and is centred along the other. The part of
the canvas that it then takes is its view box, outside which nothing is drawn.
-/

namespace PenPlot

/-- The part of the plane that a document shows, in its own coordinates. -/
structure Window (α : Type) where
  /-- The least abscissa. -/
  minX : α
  /-- The least ordinate. -/
  minY : α
  /-- The extent along the abscissa. -/
  width : α
  /-- The extent along the ordinate. -/
  height : α
  deriving DecidableEq, Repr

/-- The part of the canvas that may be drawn on. -/
structure ViewBox (α : Type) where
  /-- The corner with the least coordinates. -/
  min : CanvasPoint α
  /-- The corner with the greatest coordinates. -/
  max : CanvasPoint α
  deriving DecidableEq, Repr

variable {α : Type} [Scalar α]

namespace ViewBox

/-- How far outside an edge a point may lie and still count as inside. -/
def tolerance : α := Scalar.ofDecimal 1 (-9)

/-- The point lies inside, edges included. A coordinate that does not compare lies outside. -/
def contains (box : ViewBox α) (p : CanvasPoint α) : Bool :=
  decide (box.min.x - tolerance ≤ p.x) && decide (p.x ≤ box.max.x + tolerance) &&
    decide (box.min.y - tolerance ≤ p.y) && decide (p.y ≤ box.max.y + tolerance)

/-- The extent along the abscissa. -/
def width (box : ViewBox α) : α := box.max.x - box.min.x

/-- The extent along the ordinate. -/
def height (box : ViewBox α) : α := box.max.y - box.min.y

end ViewBox

namespace Window

/-- The window has a positive finite extent along both axes. -/
def isProper (window : Window α) : Bool :=
  decide (0 < window.width) && decide (0 < window.height) &&
    Scalar.isFinite window.width && Scalar.isFinite window.height

/-- The width in heights. -/
def aspectRatio (window : Window α) : α := window.width / window.height

/-- The transform that fits the window into the canvas, and the view box it takes there. A window
that is taller than the canvas, by its aspect ratio, leaves bands to its left and right, and any
other one bands above and below. -/
def fit (window : Window α) (canvas : Size α) : Affine α × ViewBox α :=
  let taller := window.aspectRatio < canvas.aspectRatio
  let factor := if taller then canvas.height / window.height else canvas.width / window.width
  let offset : Point α :=
    if taller then ⟨(canvas.width - window.width * factor) / 2, 0⟩
    else ⟨0, (canvas.height - window.height * factor) / 2⟩
  let transform :=
    ((Affine.translate offset.x offset.y).comp (Affine.scale factor factor)).comp
      (Affine.translate (-window.minX) (-window.minY))
  let box : ViewBox α :=
    { min := transform.apply ⟨window.minX, window.minY⟩
      max := transform.apply ⟨window.minX + window.width, window.minY + window.height⟩ }
  (transform, box)

end Window

end PenPlot
