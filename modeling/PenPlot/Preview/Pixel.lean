import PenPlot.Preview.Color

/-!
# Pixels and inks

A pixel is opaque and has three components of a byte each. An ink is what a mark is drawn with: a
colour with an opacity. It covers a pixel to a share, which is a byte as well; the pixel then shows a
mixture of the ink and of what was there before. A product of two bytes counts for its 256th part,
rounded up, which is exact if one of the bytes is 255.
-/

namespace PenPlot

/-- The colour of a pixel, which is opaque. -/
structure Pixel where
  /-- The red component. -/
  red : UInt8
  /-- The green component. -/
  green : UInt8
  /-- The blue component. -/
  blue : UInt8
  deriving DecidableEq, Repr

namespace Pixel

/-- The component between 0 and 1 that is nearest to a value. -/
def clamp (c : Float32) : Float32 := if c < 0 then 0 else if 1 < c then 1 else c

/-- A share of a component as a byte. -/
def component (c share : Float32) : UInt8 := (clamp c * share * 255 + 0.5).toUInt8

/-- The pixel of a colour of which some share is taken. A colour with an undefined component is
black. -/
def ofShare (color : Color Float32) (share : Float32) : Pixel :=
  if color.red.isNaN || color.green.isNaN || color.blue.isNaN then ⟨0, 0, 0⟩
  else ⟨component color.red share, component color.green share, component color.blue share⟩

/-- The pixel of a colour. A colour with an undefined component is black. -/
def ofColor (color : Color Float32) : Pixel := ofShare color 1

end Pixel

/-- What a mark is drawn with. -/
structure Ink where
  /-- The components, of which the share is taken that the opacity gives. -/
  pixel : Pixel
  /-- The opacity, which is 255 for an opaque ink. -/
  opacity : UInt8
  deriving DecidableEq, Repr

/-- The byte that a sum of products of two bytes stands for. -/
def byteShare (product : Nat) : Nat := (product + 255) / 256

namespace Ink

/-- The ink of a colour with an opacity. -/
def ofColor (color : Color Float32) (opacity : UInt8) : Ink :=
  ⟨.ofShare color (opacity.toNat.toFloat.toFloat32 / 255), opacity⟩

/-- A component of a pixel with ink over a share of it. -/
def layComponent (opacity share below above : Nat) : UInt8 :=
  if opacity = 255 then .ofNat (byteShare (below * (255 - share) + above * share))
  else
    .ofNat (byteShare (above * share) + byteShare (below * (255 - byteShare (opacity * share))))

/-- A pixel with ink over a share of it. -/
def lay (ink : Ink) (below : Pixel) (share : Nat) : Pixel :=
  let lay (below above : UInt8) : UInt8 :=
    layComponent ink.opacity.toNat share below.toNat above.toNat
  ⟨lay below.red ink.pixel.red, lay below.green ink.pixel.green, lay below.blue ink.pixel.blue⟩

end Ink

end PenPlot
