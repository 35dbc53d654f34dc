import PenPlot.Preview.Line

/-!
# Frames of marks

A mark on a picture is drawn in a frame of whole pixels. The bounds of the mark are computed in single
precision and rounded outward to whole numbers of 32 bits. A mark near the picture is held by its
frame completely. Bounds that are out of range have no frame, and then the mark is not drawn. Bounds
beyond the whole numbers are cut to them: the edges above and to the left are as far out as whole
numbers go, and so are the height and the width that are laid off from there, so that the frame of a
mark that is far too large ends where the picture begins, and hides the mark.

The rows of a wide mark are sampled four to a pixel, and their numbers are words of 32 bits, of which
the overflow is lost: `Frame.sampleRows?` says which rows remain.
-/

namespace PenPlot

/-- A rectangle of pixels. -/
structure Frame where
  /-- The first column. -/
  left : Int
  /-- The first row. -/
  top : Int
  /-- The column behind the last. -/
  right : Int
  /-- The row behind the last. -/
  bottom : Int
  deriving DecidableEq, Repr

namespace Frame

/-- The greatest whole number of 32 bits that is a value of single precision. -/
def limit : Int := 2147483520

/-- The greatest whole number of 32 bits. -/
def greatest : Int := 0x7FFFFFFF

/-- How many whole numbers there are of 32 bits. -/
def wordCount : Nat := 0x100000000

/-- A whole value as a whole number, the nearest that there is. -/
def whole (x : Float32) : Int :=
  if 2147483520 ≤ x then limit else if x ≤ -2147483520 then -limit else x.toInt32.toInt

/-- The first pixel of a side and the one behind the last. -/
def side? (low extent : Float32) : Option (Int × Int) :=
  let first := whole low.floor
  let behind := first + max 1 (whole extent.ceil)
  if behind ≤ greatest then some (first, behind) else none

/-- The frame around bounds. -/
def ofBounds? (bounds : Bounds) : Option Frame := do
  let (left, right) ← side? bounds.left (bounds.right - bounds.left)
  let (top, bottom) ← side? bounds.top (bounds.bottom - bounds.top)
  pure ⟨left, top, right, bottom⟩

/-- The frame around bounds with a margin. -/
def around? (bounds : Bounds) (margin : Float32) : Option Frame := do
  let outer := bounds.widen margin
  guard outer.isProper
  ofBounds? outer

/-- The frame of a line that is wider than a pixel. -/
def ofWideLine? (line : Bounds) (scale width : Float32) : Option Frame := do
  let outline := line.widen (width / 2)
  let inPixels := outline.scale scale
  guard (width.isFinite && line.isProper && outline.isProper)
  guard (inPixels.isProper && inPixels.isModerate && inPixels.roundOut.isProper)
  ofBounds? inPixels.roundOut

/-- The frame of a picture. -/
def ofSize (width height : Nat) : Frame := ⟨0, 0, width, height⟩

/-- The pixels that two frames have in common. -/
def meet? (frame other : Frame) : Option Frame :=
  let common : Frame :=
    ⟨max frame.left other.left, max frame.top other.top, min frame.right other.right,
      min frame.bottom other.bottom⟩
  if common.left < common.right && common.top < common.bottom then some common else none

/-- The frame is part of another one. -/
def isWithin (frame other : Frame) : Bool :=
  other.left ≤ frame.left && other.top ≤ frame.top && frame.right ≤ other.right &&
    frame.bottom ≤ other.bottom

/-- The pixel is part of the frame. -/
def holds (frame : Frame) (x y : Int) : Bool :=
  frame.left ≤ x && x < frame.right && frame.top ≤ y && y < frame.bottom

/-- The first sample row at or below the top of a picture, and the one behind the last, as words. No
row is sampled if the last is negative, and one at least if it is not. -/
def sampleRows? (frame : Frame) : Option (Int × Int) :=
  let first := max 0 ((4 * frame.top).bmod wordCount)
  let behind := (4 * frame.bottom).bmod wordCount
  if behind < 0 then none else some (first, max behind (first + 1))

end Frame

end PenPlot
