import PenPlot.Geometry.Affine

/-!
# Elliptical arcs

A path gives an arc by its end points, the radii and the rotation of an ellipse, and two flags that
choose one of the up to four arcs of such an ellipse between the points. Drawing it needs the centre
and the angles instead. Radii that are too small to reach are enlarged by the least common factor
with which they do, the square root of the `ratio` below.

An arc whose ends coincide draws nothing, and one with a zero radius is a straight line.
-/

namespace PenPlot

/-- An arc as a path gives it, apart from the point at which it starts. -/
structure Arc (α : Type) where
  /-- The first radius of the ellipse. -/
  rx : α
  /-- The second radius of the ellipse. -/
  ry : α
  /-- The rotation of the first axis, in radians. -/
  rotation : α
  /-- The arc of more than half a turn is meant. -/
  large : Bool
  /-- The arc of growing angles is meant. -/
  sweep : Bool
  /-- The point at which the arc ends. -/
  stop : Point α
  deriving DecidableEq, Repr

/-- An ellipse, and the part of it that an arc runs along. -/
structure EllipticalArc (α : Type) where
  /-- The centre of the ellipse. -/
  center : Point α
  /-- The first radius, large enough. -/
  rx : α
  /-- The second radius, large enough. -/
  ry : α
  /-- The rotation of the first axis, in radians. -/
  rotation : α
  /-- The angle at which the arc starts, before the rotation. -/
  startAngle : α
  /-- How far the arc runs, positive along growing angles. -/
  deltaAngle : α
  deriving DecidableEq, Repr

/-- What an arc is drawn as. -/
inductive ArcShape (α : Type) where
  /-- Nothing: the ends coincide. -/
  | omitted
  /-- A straight line: a radius is zero. -/
  | straight
  /-- A part of an ellipse. -/
  | elliptical (arc : EllipticalArc α)
  deriving DecidableEq, Repr

variable {α : Type} [Scalar α]

open Scalar

/-- What an arc that starts at `start` is drawn as. -/
def Arc.shape (start : Point α) (arc : Arc α) : ArcShape α :=
  let stop := arc.stop
  if start == stop then .omitted
  else
    let rx := abs arc.rx
    let ry := abs arc.ry
    if rx == 0 || ry == 0 then .straight
    else
      let sinφ := sin arc.rotation
      let cosφ := cos arc.rotation
      let half := (start - stop) * (ofDecimal 5 (-1) : α)
      let x := cosφ * half.x + sinφ * half.y
      let y := -sinφ * half.x + cosφ * half.y
      let ratio := (x * x) / (rx * rx) + (y * y) / (ry * ry)
      let enlarged : α × α :=
        if 1 < ratio then
          let grow := sqrt ratio
          (rx * grow, ry * grow)
        else (rx, ry)
      let rx := enlarged.1
      let ry := enlarged.2
      let rx2 := rx * rx
      let ry2 := ry * ry
      let numerator := rx2 * ry2 - rx2 * y * y - ry2 * x * x
      let denominator := rx2 * y * y + ry2 * x * x
      let root := sqrt (positivePart (numerator / denominator))
      let coefficient := if arc.large = arc.sweep then -root else root
      let cx := coefficient * rx * y / ry
      let cy := -coefficient * ry * x / rx
      let middle := (start + stop) * (ofDecimal 5 (-1) : α)
      let center : Point α :=
        ⟨cosφ * cx - sinφ * cy + middle.x, sinφ * cx + cosφ * cy + middle.y⟩
      let ux := (x - cx) / rx
      let uy := (y - cy) / ry
      let vx := (-x - cx) / rx
      let vy := (-y - cy) / ry
      let startAngle := atan2 uy ux
      let delta := atan2 (ux * vy - uy * vx) (ux * vx + uy * vy)
      let deltaAngle :=
        if !arc.sweep && decide (0 < delta) then delta - turn
        else if arc.sweep && decide (delta < 0) then delta + turn
        else delta
      .elliptical { center, rx, ry, rotation := arc.rotation, startAngle, deltaAngle }

namespace EllipticalArc

/-- The point at an angle of the ellipse before its rotation. -/
def unrotatedPoint (arc : EllipticalArc α) (angle : α) : Point α :=
  ⟨arc.center.x + arc.rx * cos angle, arc.center.y + arc.ry * sin angle⟩

/-- The rotation of the ellipse about its centre. -/
def frame (arc : EllipticalArc α) : Affine α := .rotateAround arc.rotation arc.center

end EllipticalArc

end PenPlot
