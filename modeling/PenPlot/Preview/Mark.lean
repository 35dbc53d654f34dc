import PenPlot.Preview.Hairline
import PenPlot.Preview.Pixel
import PenPlot.Scalar.Machine

/-!
# Marks

A mark is a straight line on a picture, drawn with an ink. What it does to a pixel is computed when the
pixel is asked for. A line that is wider than a pixel is a band with round ends: it covers the pixel to
the share of sixteen sample points in it that lie on the band. A line that is not is a hairline, and
drawn with a paler ink the thinner it is; a line of no width at all is a full hairline.
-/

namespace PenPlot

/-- A straight line with round ends that is wider than a pixel, in pixels. -/
structure Band where
  /-- The abscissa of the end that lies nearer to the origin. -/
  x₀ : Float
  /-- The ordinate of the end that lies nearer to the origin. -/
  y₀ : Float
  /-- The abscissa of the other end. -/
  x₁ : Float
  /-- The ordinate of the other end. -/
  y₁ : Float
  /-- Half of the width. -/
  radius : Float
  /-- The pixels that the band may cover. -/
  frame : Frame
  /-- The first row of sample points, of which a pixel has four. -/
  firstRow : Int
  /-- The row of sample points behind the last. -/
  rowBehind : Int
  deriving Repr

/-- The shape of a mark. -/
inductive MarkShape where
  /-- A line that is no wider than a pixel. -/
  | hairline (hairline : Hairline)
  /-- A line that is wider. -/
  | band (band : Band)
  deriving Repr

/-- A straight line drawn with an ink. -/
structure Mark where
  /-- The shape. -/
  shape : MarkShape
  /-- The ink. -/
  ink : Ink
  deriving Repr

namespace Band

/-- The square of the distance from the origin. -/
def remoteness (p : Float × Float) : Float := p.1 * p.1 + p.2 * p.2

/-- The band along a line between points of the canvas, if it is drawn. -/
def ofLine? (line : Line) (scale width : Float32) : Option Band := do
  let frame ← Frame.ofWideLine? line.bounds scale width
  let rows ← frame.sampleRows?
  let place (p : Spot) : Float × Float :=
    (p.x.toFloat * scale.toFloat, p.y.toFloat * scale.toFloat)
  let start := place line.start
  let stop := place line.stop
  let turned := remoteness stop < remoteness start
  let near := if turned then stop else start
  let far := if turned then start else stop
  pure
    { x₀ := near.1, y₀ := near.2, x₁ := far.1, y₁ := far.2
      radius := (width * scale).toFloat / 2
      frame, firstRow := rows.1, rowBehind := rows.2 }

/-- The point lies on the band. -/
def covers (band : Band) (x y : Float) : Bool :=
  let dx := band.x₁ - band.x₀
  let dy := band.y₁ - band.y₀
  let length := dx * dx + dy * dy
  let along := ((x - band.x₀) * dx + (y - band.y₀) * dy) / length
  let t : Float := if 0 < length then Scalar.clampUnit along else 0
  let ex := x - (band.x₀ + t * dx)
  let ey := y - (band.y₀ + t * dy)
  ex * ex + ey * ey ≤ band.radius * band.radius

/-- Where the sample points lie in a pixel, along either axis. -/
def samples : List Float := [0.125, 0.375, 0.625, 0.875]

/-- A very small way. A point on the left or the upper side of a band does not lie on it, and a point
on the right or the lower side does, as if it were so much further to the left and up. -/
def nudge : Float := 1 / 0x100000

/-- How many sample points of a row in a pixel lie on the band. -/
def rowCount (band : Band) (x y row : Nat) : Nat :=
  let sampleY := y.toFloat + samples.getD row 0 - nudge
  let index : Int := 4 * y + row
  if band.firstRow ≤ index && index < band.rowBehind then
    samples.countP fun offset => band.covers (x.toFloat + offset - nudge) sampleY
  else 0

/-- The byte that a pixel is covered to. -/
def share (band : Band) (x y : Nat) : Nat :=
  if band.frame.holds x y then
    let count :=
      band.rowCount x y 0 + band.rowCount x y 1 + band.rowCount x y 2 + band.rowCount x y 3
    min 255 (16 * count)
  else 0

end Band

/-- The shape of a line between points of the canvas, if it is drawn. -/
def MarkShape.ofLine? (line : Line) (scale width : Float32) : Option MarkShape :=
  if width == 0 || width * scale ≤ 1 then (Hairline.ofStroke? line scale).map hairline
  else (Band.ofLine? line scale width).map band

namespace Mark

/-- The opacity of the ink for a line that is no wider than a pixel. -/
def hairOpacity (pixels : Float32) : UInt8 :=
  .ofNat (255 * (pixels * 256).toUInt32.toNat / 256)

/-- The opacity of the ink for a line of any width. -/
def opacity (scale width : Float32) : UInt8 :=
  if width == 0 then 255
  else if width * scale ≤ 1 then hairOpacity (width * scale)
  else 255

/-- The bytes that a pixel of a picture is covered to, one after the other. -/
def shares (mark : Mark) (width height x y : Nat) : List Nat :=
  match mark.shape with
  | .hairline hairline => hairline.shares width height x y
  | .band band => [band.share x y]

/-- The pixel with the mark over it. -/
def paint (width height x y : Nat) (below : Pixel) (mark : Mark) : Pixel :=
  (mark.shares width height x y).foldl mark.ink.lay below

end Mark

end PenPlot
