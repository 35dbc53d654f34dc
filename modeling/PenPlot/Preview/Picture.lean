import PenPlot.Decimal.Text
import PenPlot.Geometry.Point
import PenPlot.Preview.Mark
import PenPlot.Preview.Stroke

/-!
# Pictures

A preview is a picture: a background, marks on it, one over the other, and a size in pixels. The
picture begins with a mesh of lines at equal distances, and the strokes of the pen follow. A line that
is out of range makes no mark, and a mesh has all of its marks or none.
-/

namespace PenPlot

/-- How a preview is drawn. -/
structure PictureOptions where
  /-- How many pixels a unit of the canvas has. -/
  scale : Float32
  /-- The distance between the lines of the mesh, if there is one. -/
  meshSize : Option Float
  /-- The width of strokes, in units of the canvas. -/
  strokeWidth : Float32
  /-- The colour of the background. -/
  background : Color Float32
  /-- The colour of the mesh. -/
  meshColor : Color Float32

/-- Why a preview cannot be drawn. -/
inductive PictureFlaw where
  /-- The scale is not positive. -/
  | scale (scale : Float32)
  /-- An extent of so many units has too few or too many pixels. -/
  | extent (pixels units : Float) (scale : Float32)
  /-- A row of pixels is too long. -/
  | size (width height : Nat)

/-- A preview. -/
structure Picture where
  /-- How many pixels a row has. -/
  width : Nat
  /-- How many rows there are. -/
  height : Nat
  /-- The colour of the background. -/
  background : Pixel
  /-- The marks, the topmost last. -/
  marks : Array Mark
  deriving Repr

namespace PictureOptions

/-- The grey of the background where none is asked for. -/
def plotGrey : Float32 := 130 / 255

/-- The options where none are asked for. -/
def standard : PictureOptions where
  scale := 2
  meshSize := some 10
  strokeWidth := 1
  background := ⟨plotGrey, plotGrey, plotGrey⟩
  meshColor := ⟨0.6, 0.6, 0.6⟩

/-- The width of the pen, in units of the canvas. There is none below zero. -/
def penWidth (options : PictureOptions) : Float32 :=
  if 0 < options.strokeWidth then options.strokeWidth else 0

end PictureOptions

/-- The wording of a flaw. -/
def PictureFlaw.message : PictureFlaw → String
  | scale factor => "raster scale must be positive, got " ++ Decimal.display32 factor
  | extent pixels units factor =>
    "pixel dimension out of range: " ++ Decimal.display pixels ++ " for " ++ Decimal.display units ++
      " units at scale " ++ Decimal.display32 factor
  | size width height => s!"invalid raster size {width}x{height}"

namespace Picture

/-- The most pixels that an extent may have. -/
def maxExtent : Nat := 0xFFFFFFFF

/-- The most bytes that a row may take, at four bytes to a pixel. -/
def maxRowBytes : Nat := 0x7FFFFFFF

/-- How many pixels an extent of the canvas has. -/
def pixelExtent (units : Float) (scale : Float32) : Except PictureFlaw Nat :=
  let pixels := (units * scale.toFloat).ceil
  if 1 ≤ pixels && pixels ≤ maxExtent.toFloat then .ok pixels.toUInt64.toNat
  else .error (.extent pixels units scale)

/-- At most `limit` multiples of a step up to an extent, each by adding the step to the one before,
beginning at `position`. -/
def meshPositions (extent step : Float) : (limit : Nat) → (position : Float) → List Float
  | 0, _ => []
  | limit + 1, position =>
    if position ≤ extent then position :: meshPositions extent step limit (position + step) else []

/-- The positions of the mesh lines along an extent. -/
def meshLines (extent step : Float) : List Float :=
  meshPositions extent step (2 * (extent / step).ceil.toUInt64.toNat + 2) 0

/-- The marks of a mesh. The lines are half a pixel wide. -/
def meshMarks (canvas : Size Float) (options : PictureOptions) (step : Float) : List Mark :=
  let width := canvas.width.toFloat32
  let height := canvas.height.toFloat32
  let pixels := 0.5 / options.scale * options.scale
  let upright := (meshLines canvas.width step).map fun x =>
    (⟨⟨x.toFloat32, 0⟩, ⟨x.toFloat32, height⟩⟩ : Line)
  let level := (meshLines canvas.height step).map fun y =>
    (⟨⟨0, y.toFloat32⟩, ⟨width, y.toFloat32⟩⟩ : Line)
  let ink := Ink.ofColor options.meshColor (Mark.hairOpacity pixels)
  if pixels ≤ 1 then
    (Hairline.ofMesh (upright ++ level) ⟨0, 0, width, height⟩ options.scale).map fun hairline =>
      ⟨.hairline hairline, ink⟩
  else []

/-- The picture of an empty canvas. -/
def blank (canvas : Size Float) (options : PictureOptions) : Except PictureFlaw Picture := do
  if !(options.scale.isFinite && 0 < options.scale) then .error (.scale options.scale)
  else
    let width ← pixelExtent canvas.width options.scale
    let height ← pixelExtent canvas.height options.scale
    if maxRowBytes < 4 * width then .error (.size width height)
    else
      let mesh :=
        match options.meshSize with
        | some step => if 0 < step then meshMarks canvas options step else []
        | none => []
      .ok ⟨width, height, .ofColor options.background, mesh.toArray⟩

/-- The line of a stroke. Coordinates are taken in single precision. -/
def strokeLine (stroke : Stroke Float) : Line :=
  let spot (p : CanvasPoint Float) : Spot := ⟨p.x.toFloat32, p.y.toFloat32⟩
  ⟨spot stroke.start, spot stroke.stop⟩

/-- The ink of a stroke. Its colour is taken in single precision, and is paler for a thin line. -/
def strokeInk (options : PictureOptions) (stroke : Stroke Float) : Ink :=
  .ofColor (stroke.color.map Float.toFloat32) (Mark.opacity options.scale options.penWidth)

/-- The mark of a stroke, if it is drawn. -/
def strokeMark? (options : PictureOptions) (stroke : Stroke Float) : Option Mark :=
  (MarkShape.ofLine? (strokeLine stroke) options.scale options.penWidth).map fun shape =>
    ⟨shape, strokeInk options stroke⟩

/-- The stroker of pictures. -/
def stroke (options : PictureOptions) : Stroker Float Picture := fun picture stroke =>
  match strokeMark? options stroke with
  | some mark => { picture with marks := picture.marks.push mark }
  | none => picture

/-- The picture with strokes drawn on it. -/
def draw (picture : Picture) (options : PictureOptions) (strokes : List (Stroke Float)) : Picture :=
  strokes.foldl (stroke options) picture

/-- The pixel in a column of a row, if it is part of the picture. -/
def pixel? (picture : Picture) (x y : Nat) : Option Pixel :=
  if x < picture.width && y < picture.height then
    some (picture.marks.foldl (Mark.paint picture.width picture.height x y) picture.background)
  else none

end Picture

end PenPlot
