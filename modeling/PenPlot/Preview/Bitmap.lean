import PenPlot.Preview.Picture

/-!
# Bitmap files

A picture as an uncompressed bitmap file with four bytes to a pixel: a file header, a version 4
header, which gives the place of each component in a pixel and names the standard colour space, and
the pixels, the rows from the bottom up. All numbers have their low byte first.
-/

namespace PenPlot.Bitmap

/-- A number in so many bytes, the low byte first. -/
def littleEndian : (count : Nat) → Nat → List UInt8
  | 0, _ => []
  | count + 1, n => UInt8.ofNat n :: littleEndian count (n / 256)

/-- A number in four bytes. -/
def word (n : Nat) : List UInt8 := littleEndian 4 n

/-- A number in two bytes. -/
def halfWord (n : Nat) : List UInt8 := littleEndian 2 n

/-- How long the file header is. -/
def fileHeaderSize : Nat := 14

/-- How long the header of the picture is. -/
def pictureHeaderSize : Nat := 108

/-- Where the pixels begin, as the file header gives it. -/
def pixelOffset : Nat := fileHeaderSize + pictureHeaderSize

/-- The file header. -/
def fileHeader (pixelBytes : Nat) : List UInt8 :=
  [0x42, 0x4D] ++ word (pixelOffset + pixelBytes) ++ halfWord 0 ++ halfWord 0 ++ word pixelOffset

/-- The header of the picture. -/
def pictureHeader (width height pixelBytes : Nat) : List UInt8 :=
  word pictureHeaderSize ++ word width ++ word height ++ halfWord 1 ++ halfWord 32 ++ word 3 ++
    word pixelBytes ++ word 0 ++ word 0 ++ word 0 ++ word 0 ++
    word 0x00FF0000 ++ word 0x0000FF00 ++ word 0x000000FF ++ word 0xFF000000 ++
    word 0x73524742 ++ List.replicate 48 0

/-- The bytes of a pixel, which is opaque. -/
def pixelBytes (pixel : Pixel) : List UInt8 := [pixel.blue, pixel.green, pixel.red, 0xFF]

/-- The file of a picture. -/
def encode (picture : Picture) : List UInt8 :=
  let rows := (List.range picture.height).reverse.map fun y =>
    (List.range picture.width).filterMap fun x => picture.pixel? x y
  let size := 4 * picture.width * picture.height
  fileHeader size ++ pictureHeader picture.width picture.height size ++
    rows.flatten.flatMap pixelBytes

end PenPlot.Bitmap
