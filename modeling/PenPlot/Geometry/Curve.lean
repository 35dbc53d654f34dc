import PenPlot.Geometry.Point

/-!
# Curves

Points on a straight line and on Bézier curves, by a parameter that runs from 0 to 1.
-/

namespace PenPlot

variable {α : Type} [Scalar α]

/-- The point at `t` on the way from `p` to `q`. -/
def linearPoint (p q : Point α) (t : α) : Point α := p + (q - p) * t

/-- The point at `t` on the quadratic curve with the control point `c`. -/
def quadraticPoint (p c q : Point α) (t : α) : Point α :=
  let s := 1 - t
  p * (s * s) + c * (2 * s * t) + q * (t * t)

/-- The point at `t` on the cubic curve with the control points `c` and `d`. -/
def cubicPoint (p c d q : Point α) (t : α) : Point α :=
  let s := 1 - t
  p * (s * s * s) + c * (3 * s * s * t) + d * (3 * s * t * t) + q * (t * t * t)

end PenPlot
