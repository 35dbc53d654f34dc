import PenPlot.Preview.Frame

/-!
# Hairlines

A hairline is a line as wide as one pixel. It is drawn in whole numbers: its ends are put on a grid of
64 points to a pixel, and it is followed from pixel to pixel, along the axis that it is closer to.
Every step crosses two neighbouring pixels, which share the width of the line between them; how much
each of them gets is a byte, read off the place, in 65536ths of a pixel, where the line passes the
middle of the step. The first and the last step are as long as the line reaches into them.

Long lines are halved until no part is longer than 511 pixels. A part that passes before the first
pixel across its steps is moved to the beginning of that pixel. Large pictures are drawn in tiles,
each like a picture of its own.
-/

namespace PenPlot

/-- A part of a picture that is drawn like a picture of its own. -/
structure Tile where
  /-- The first column. -/
  left : Nat
  /-- The first row. -/
  top : Nat
  /-- How many columns there are. -/
  width : Nat
  /-- How many rows there are. -/
  height : Nat
  deriving DecidableEq, Repr

/-- A line on the grid of 64 points to a pixel. -/
structure GridLine where
  /-- The abscissa of the start. -/
  x₀ : Int
  /-- The ordinate of the start. -/
  y₀ : Int
  /-- The abscissa of the end. -/
  x₁ : Int
  /-- The ordinate of the end. -/
  y₁ : Int
  deriving DecidableEq, Repr

/-- The steps of a part of a hairline. -/
structure HairRun where
  /-- The steps are rows, and not columns. -/
  isUpright : Bool
  /-- The first step. -/
  first : Int
  /-- The step behind the last. -/
  behind : Int
  /-- Where the line passes the middle of the first step, in 65536ths of a pixel. -/
  middle : Int
  /-- How far the line moves from one step to the next, in 65536ths of a pixel. -/
  slope : Int
  /-- How long the first step is, in 64ths of a pixel. -/
  firstLength : Int
  /-- How long the last step is, in 64ths of a pixel, if it is not a full one. -/
  lastLength : Int
  deriving DecidableEq, Repr

/-- A hairline in pixels. -/
structure Hairline where
  /-- The line. -/
  line : Line
  /-- The bounds of all that is drawn together with the line. -/
  bounds : Bounds
  /-- The margin around the bounds. -/
  margin : Float32
  deriving Repr

namespace Tile

/-- The most rows or columns of a tile. -/
def maxSide : Nat := 8191

/-- The tile of a picture that holds a pixel. -/
def holding (width height x y : Nat) : Tile :=
  let left := x / maxSide * maxSide
  let top := y / maxSide * maxSide
  ⟨left, top, min maxSide (width - left), min maxSide (height - top)⟩

/-- The first pixel. -/
def origin (tile : Tile) : Spot := ⟨tile.left.toFloat.toFloat32, tile.top.toFloat.toFloat32⟩

/-- The pixels of the tile, as seen from its first one. -/
def frame (tile : Tile) : Frame := .ofSize tile.width tile.height

/-- The box that lines are cut to: the tile with a pixel around it. -/
def box (tile : Tile) : Bounds :=
  Bounds.widen ⟨0, 0, tile.width.toFloat.toFloat32, tile.height.toFloat.toFloat32⟩ 1

/-- What is drawn in the frame is visible in the tile. A tile whose inner pixels are none shows only
what it holds completely. -/
def shows (tile : Tile) (frame : Frame) : Bool :=
  (frame.meet? tile.frame).isSome &&
    (frame.isWithin tile.frame || 2 < tile.width && 2 < tile.height)

end Tile

namespace GridLine

/-- The box in which the grid has numbers for all points. -/
def box : Bounds := ⟨-32767, -32767, 32767, 32767⟩

/-- A coordinate on the grid. -/
def coordinate (c : Float32) : Int := (c * 64).toInt32.toInt

/-- The line between the points of the grid that the ends belong to. -/
def ofLine (line : Line) : GridLine :=
  ⟨coordinate line.start.x, coordinate line.start.y, coordinate line.stop.x,
    coordinate line.stop.y⟩

/-- The frame of the line, with a pixel around it. -/
def frame (line : GridLine) : Frame where
  left := min line.x₀ line.x₁ / 64 - 1
  top := min line.y₀ line.y₁ / 64 - 1
  right := (max line.x₀ line.x₁ + 63) / 64 + 1
  bottom := (max line.y₀ line.y₁ + 63) / 64 + 1

/-- The greatest extent of a part, which is 511 pixels. -/
def maxExtent : Nat := 32704

/-- A line in parts that are not too long. It is halved so many times at most. -/
def parts : (halvings : Nat) → GridLine → List GridLine
  | 0, line => [line]
  | halvings + 1, line =>
    if max (line.x₁ - line.x₀).natAbs (line.y₁ - line.y₀).natAbs ≤ maxExtent then [line]
    else
      let x := line.x₀ / 2 + line.x₁ / 2
      let y := line.y₀ / 2 + line.y₁ / 2
      parts halvings ⟨line.x₀, line.y₀, x, y⟩ ++ parts halvings ⟨x, y, line.x₁, line.y₁⟩

/-- How many halvings make a part of any line in the box. -/
def enoughHalvings : Nat := 10

end GridLine

namespace HairRun

/-- The steps from one place on the axis to a later one, which the line passes in two places across
the axis. -/
def ofAxis (isUpright : Bool) (along₀ across₀ along₁ across₁ : Int) : HairRun :=
  let slope := ((across₁ - across₀) * 0x10000).tdiv (along₁ - along₀)
  let first := along₀ / 64
  let behind := (along₁ + 63) / 64
  let isSingle := behind - first == 1
  { isUpright, first, behind
    middle := across₀ * 1024 + (slope * (32 - along₀ % 64) + 32) / 64
    slope
    firstLength := if isSingle then along₁ - along₀ else 64 - along₀ % 64
    lastLength := if isSingle then 0 else along₁ % 64 }

/-- The run without the steps before one. The place on the axis where the line ends tells how long a
single step is. -/
def dropBefore (run : HairRun) (step lineEnd : Int) : HairRun :=
  if run.first < step then
    let isSingle := run.behind - step == 1
    { run with
      first := step
      middle := run.middle + run.slope * (step - run.first)
      firstLength := if isSingle then (lineEnd - 1) % 64 + 1 else 64
      lastLength := if isSingle then 0 else run.lastLength }
  else run

/-- The run without the steps from one on. -/
def dropFrom (run : HairRun) (step : Int) : HairRun :=
  if step < run.behind then { run with behind := step, lastLength := 0 } else run

/-- The steps pass between two places across the axis, given in pixels, or next to one of them. -/
def passes (run : HairRun) (low high : Int) : Bool :=
  let last := run.middle + (run.behind - run.first - 1) * run.slope
  let least := min run.middle last
  let greatest := max run.middle last
  (least - 0x8000) / 0x10000 - 1 < high && low < (greatest + 0x8000 + 0xFFFF) / 0x10000 + 1

/-- The run in a window along the axis and across it. -/
def within? (run : HairRun) (low high acrossLow acrossHigh lineEnd : Int) : Option HairRun :=
  if high ≤ run.first || run.behind ≤ low then none
  else
    let inside := (run.dropBefore low lineEnd).dropFrom high
    if inside.first < inside.behind && inside.passes acrossLow acrossHigh then some inside else none

/-- The steps of a line, as far as they lie in a frame. A line without extent has none. -/
def ofLine? (line : GridLine) (frame : Frame) : Option HairRun :=
  if (line.y₁ - line.y₀).natAbs < (line.x₁ - line.x₀).natAbs then
    let run :=
      if line.x₀ ≤ line.x₁ then ofAxis false line.x₀ line.y₀ line.x₁ line.y₁
      else ofAxis false line.x₁ line.y₁ line.x₀ line.y₀
    run.within? frame.left frame.right frame.top frame.bottom (max line.x₀ line.x₁)
  else if line.y₀ = line.y₁ then none
  else
    let run :=
      if line.y₀ ≤ line.y₁ then ofAxis true line.y₀ line.x₀ line.y₁ line.x₁
      else ofAxis true line.y₁ line.x₁ line.y₀ line.x₀
    run.within? frame.top frame.bottom frame.left frame.right (max line.y₀ line.y₁)

/-- How long a step is, in 64ths of a pixel. -/
def length (run : HairRun) (step : Int) : Int :=
  if step = run.first then run.firstLength
  else if 0 < run.lastLength && step = run.behind - 1 then run.lastLength
  else 64

/-- The pixels of a step, by their place across the axis, with the bytes that they are covered to. The
first pixel has no neighbour before it: a level line leaves out that neighbour, an upright one covers
the first pixel twice, and a slanting line is moved by a pixel. -/
def cells (run : HairRun) (step : Int) : List (Int × Nat) :=
  let start := max 0 (run.middle + 0x8000)
  let place := max 0 (start + (step - run.first) * run.slope)
  let pixel := place / 0x10000
  let byte := place / 0x100 % 0x100
  let length := run.length step
  let share := (byte * length / 64).toNat
  let shareBefore := ((255 - byte) * length / 64).toNat
  if run.slope ≠ 0 then [(max 1 pixel - 1, shareBefore), (max 1 pixel, share)]
  else if run.isUpright then [(pixel, share), (max 1 pixel - 1, shareBefore)]
  else [(pixel, share), (pixel - 1, shareBefore)]

/-- The bytes that a pixel is covered to, one after the other. -/
def shares (run : HairRun) (x y : Int) : List Nat :=
  let step := if run.isUpright then y else x
  let place := if run.isUpright then x else y
  if run.first ≤ step && step < run.behind then
    (run.cells step).filterMap fun cell => if cell.1 = place then some cell.2 else none
  else []

end HairRun

namespace Hairline

/-- How far a round end reaches beyond the end of a hairline. -/
def roundEnd : Float32 := (3.14159274 : Float32) / 8

/-- The unit vector in a direction, if there is one. -/
def unit (x y : Float32) : Spot :=
  let length := (x.toFloat * x.toFloat + y.toFloat * y.toFloat).sqrt
  let factor := (1 / length).toFloat32
  let vector : Spot := ⟨x * factor, y * factor⟩
  if vector.x.isFinite && vector.y.isFinite then vector else ⟨0, 0⟩

/-- A point moved away from another one. A point is moved aside from itself. -/
def moveFrom (p other : Spot) : Spot :=
  let x := p.x - other.x
  let y := p.y - other.y
  let direction := if x == 0 && y == 0 then ⟨1, 0⟩ else unit x y
  ⟨p.x + direction.x * roundEnd, p.y + direction.y * roundEnd⟩

/-- The line with round ends. -/
def withRoundEnds (line : Line) : Line :=
  let start := moveFrom line.start line.stop
  ⟨start, moveFrom line.stop start⟩

/-- The hairline of a line between points of the canvas, if it is drawn. Its ends are round. -/
def ofStroke? (line : Line) (scale : Float32) : Option Hairline :=
  let inPixels := line.scale scale
  if line.bounds.isProper && inPixels.bounds.isProper then
    some ⟨withRoundEnds inPixels, inPixels.bounds, 2⟩
  else none

/-- The hairlines of lines that are drawn together, if they are drawn. The lines end at their ends. -/
def ofMesh (lines : List Line) (bounds : Bounds) (scale : Float32) : List Hairline :=
  let inPixels := bounds.scale scale
  if bounds.isProper && inPixels.isProper then
    lines.map fun line => ⟨line.scale scale, inPixels, 1⟩
  else []

/-- The bytes that a pixel of a tile is covered to, one after the other. -/
def sharesIn (line : Line) (tile : Tile) (x y : Int) : List Nat :=
  match (line.within? GridLine.box).bind (·.within? tile.box) with
  | none => []
  | some visible =>
    let onGrid := GridLine.ofLine visible
    match onGrid.frame.meet? tile.frame with
    | none => []
    | some frame =>
      if frame.holds x y then
        (onGrid.parts GridLine.enoughHalvings).flatMap fun part =>
          match HairRun.ofLine? part frame with
          | none => []
          | some run => run.shares x y
      else []

/-- The bytes that a pixel of a picture is covered to, one after the other. -/
def shares (hairline : Hairline) (width height x y : Nat) : List Nat :=
  let tile := Tile.holding width height x y
  match Frame.around? (hairline.bounds.seenFrom tile.origin) hairline.margin with
  | none => []
  | some frame =>
    if tile.shows frame then
      sharesIn (hairline.line.seenFrom tile.origin) tile (x - tile.left : Nat) (y - tile.top : Nat)
    else []

end Hairline

end PenPlot
