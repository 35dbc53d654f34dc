/-!
# Lines on a picture

The lines of a preview are straight and have coordinates in single precision. A line has bounds, and
it can be cut to a box (`Line.within?`): what is left of it is the part inside, of which the new ends
lie on the edges of the box. A line along an edge of the box is kept.
-/

namespace PenPlot

/-- A point of a picture. -/
structure Spot where
  /-- The abscissa. -/
  x : Float32
  /-- The ordinate. -/
  y : Float32
  deriving Repr

/-- A straight line on a picture. -/
structure Line where
  /-- Where the line starts. -/
  start : Spot
  /-- Where the line ends. -/
  stop : Spot
  deriving Repr

/-- The bounds of what is drawn. -/
structure Bounds where
  /-- The least abscissa. -/
  left : Float32
  /-- The least ordinate. -/
  top : Float32
  /-- The greatest abscissa. -/
  right : Float32
  /-- The greatest ordinate. -/
  bottom : Float32
  deriving Repr

namespace Spot

/-- The point in a unit that is so many times smaller. -/
def scale (p : Spot) (factor : Float32) : Spot := ⟨p.x * factor, p.y * factor⟩

/-- The point as seen from another origin. -/
def seenFrom (p origin : Spot) : Spot := ⟨p.x - origin.x, p.y - origin.y⟩

end Spot

namespace Bounds

/-- The bounds with a margin around them. -/
def widen (bounds : Bounds) (margin : Float32) : Bounds :=
  ⟨bounds.left - margin, bounds.top - margin, bounds.right + margin, bounds.bottom + margin⟩

/-- The bounds in a unit that is so many times smaller. -/
def scale (bounds : Bounds) (factor : Float32) : Bounds :=
  ⟨bounds.left * factor, bounds.top * factor, bounds.right * factor, bounds.bottom * factor⟩

/-- The bounds as seen from another origin. -/
def seenFrom (bounds : Bounds) (origin : Spot) : Bounds :=
  ⟨bounds.left - origin.x, bounds.top - origin.y, bounds.right - origin.x, bounds.bottom - origin.y⟩

/-- The bounds with whole edges around them. -/
def roundOut (bounds : Bounds) : Bounds :=
  ⟨bounds.left.floor, bounds.top.floor, bounds.right.ceil, bounds.bottom.ceil⟩

/-- The greatest value of single precision. -/
def greatest : Float := 3.4028234663852886e38

/-- The way from a low edge to a high one is a value of single precision. -/
def spans (low high : Float32) : Bool :=
  low.isFinite && high.isFinite && low ≤ high && high.toFloat - low.toFloat < greatest

/-- All edges and both extents are in range. -/
def isProper (bounds : Bounds) : Bool :=
  spans bounds.left bounds.right && spans bounds.top bounds.bottom

/-- No edge lies beyond a quarter of the range, so that sums of a few coordinates stay in range. -/
def isModerate (bounds : Bounds) : Bool :=
  [bounds.left, bounds.top, bounds.right, bounds.bottom].all fun edge =>
    edge.toFloat.abs ≤ greatest / 4

/-- The bounds lie in a box. -/
def isWithin (bounds box : Bounds) : Bool :=
  box.left ≤ bounds.left && box.top ≤ bounds.top && bounds.right ≤ box.right &&
    bounds.bottom ≤ box.bottom

/-- A place is before another one, or is the same and an extent leads to it. -/
def precedes (place other extent : Float32) : Bool :=
  place < other || place == other && 0 < extent

/-- The bounds have nothing in common with a box, or no more than an edge across them. -/
def misses (bounds box : Bounds) : Bool :=
  let width := bounds.right - bounds.left
  let height := bounds.bottom - bounds.top
  precedes bounds.right box.left width || precedes box.right bounds.left width ||
    precedes bounds.bottom box.top height || precedes box.bottom bounds.top height

end Bounds

namespace Line

/-- The bounds of a line. -/
def bounds (line : Line) : Bounds where
  left := if line.start.x ≤ line.stop.x then line.start.x else line.stop.x
  top := if line.start.y ≤ line.stop.y then line.start.y else line.stop.y
  right := if line.start.x ≤ line.stop.x then line.stop.x else line.start.x
  bottom := if line.start.y ≤ line.stop.y then line.stop.y else line.start.y

/-- The line in a unit that is so many times smaller. -/
def scale (line : Line) (factor : Float32) : Line :=
  ⟨line.start.scale factor, line.stop.scale factor⟩

/-- The line as seen from another origin. -/
def seenFrom (line : Line) (origin : Spot) : Line :=
  ⟨line.start.seenFrom origin, line.stop.seenFrom origin⟩

/-- An extent that is taken for none. -/
def isSlight (extent : Float32) : Bool := extent.abs ≤ 1 / 4096

/-- The value between two limits that is nearest to a value. -/
def pin (value limit other : Float) : Float :=
  let low := if other < limit then other else limit
  let high := if other < limit then limit else other
  if value < low then low else if high < value then high else value

/-- Where the line comes to an ordinate. -/
def abscissaAt (line : Line) (y : Float32) : Float32 :=
  let x₀ := line.start.x.toFloat
  let y₀ := line.start.y.toFloat
  let x₁ := line.stop.x.toFloat
  let y₁ := line.stop.y.toFloat
  if isSlight (line.stop.y - line.start.y) then (line.start.x + line.stop.x) * 0.5
  else (pin (x₀ + (y.toFloat - y₀) * (x₁ - x₀) / (y₁ - y₀)) x₀ x₁).toFloat32

/-- Where the line comes to an abscissa. -/
def ordinateAt (line : Line) (x : Float32) : Float32 :=
  let x₀ := line.start.x.toFloat
  let y₀ := line.start.y.toFloat
  let x₁ := line.stop.x.toFloat
  let y₁ := line.stop.y.toFloat
  if isSlight (line.stop.x - line.start.x) then (line.start.y + line.stop.y) * 0.5
  else (y₀ + (x.toFloat - x₀) * (y₁ - y₀) / (x₁ - x₀)).toFloat32

/-- An end of the line between the upper and the lower edge of a box. -/
def cutVertically (line : Line) (box : Bounds) (isUpper : Bool) (tip : Spot) : Spot :=
  if isUpper then if tip.y < box.top then ⟨line.abscissaAt box.top, box.top⟩ else tip
  else if box.bottom < tip.y then ⟨line.abscissaAt box.bottom, box.bottom⟩ else tip

/-- An end of the line between the left and the right edge of a box. -/
def cutHorizontally (line : Line) (box : Bounds) (isLeft : Bool) (tip : Spot) : Spot :=
  if isLeft then if tip.x < box.left then ⟨box.left, line.ordinateAt box.left⟩ else tip
  else if box.right < tip.x then ⟨box.right, line.ordinateAt box.right⟩ else tip

/-- The part of the line within a box. -/
def within? (line : Line) (box : Bounds) : Option Line :=
  if line.bounds.isWithin box then some line
  else if line.bounds.misses box then none
  else
    let startsAbove := line.start.y < line.stop.y
    let start := line.cutVertically box startsAbove line.start
    let stop := line.cutVertically box (!startsAbove) line.stop
    let startsLeft := start.x < stop.x
    let left := if startsLeft then start.x else stop.x
    let right := if startsLeft then stop.x else start.x
    let isOutside := right ≤ box.left || box.right ≤ left
    let isOnEdge := start.x == stop.x && box.left ≤ start.x && start.x ≤ box.right
    if isOutside && !isOnEdge then none
    else
      some ⟨line.cutHorizontally box startsLeft start,
        line.cutHorizontally box (!startsLeft) stop⟩

end Line

end PenPlot
