import PenPlot.Decimal.Text
import PenPlot.Geometry.Point

/-!
# Points in messages

A point is shown by its coordinates between parentheses.
-/

namespace PenPlot

/-- The two coordinates of a point as they are shown. -/
def displayPair (x y : Float) : String :=
  "(" ++ Decimal.display x ++ ", " ++ Decimal.display y ++ ")"

/-- A point of the document as it is shown. -/
def Point.display (p : Point Float) : String := displayPair p.x p.y

/-- A point of the canvas as it is shown. -/
def CanvasPoint.display (p : CanvasPoint Float) : String := displayPair p.x p.y

end PenPlot
