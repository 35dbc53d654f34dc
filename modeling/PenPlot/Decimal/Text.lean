import PenPlot.Decimal.Shortest

/-!
# Numbers in messages and files

Three formats. `display` gives the fewest digits that read back, always positionally and without a
point on whole numbers. `fixed` gives a fixed number of places behind the point, and `scientific` a
fixed number behind the leading digit; both round the exact value, ties to even. A minus sign stands
before every negative value, negative zero included.
-/

namespace PenPlot.Decimal

open Float.Model (Format UnpackedFloat)

/-- The digits of `n` with the last `places` of them behind the point. -/
def pointed (n places : Nat) : List Char × List Char :=
  let digits := Nat.toDigits 10 n
  let padded := List.replicate (places + 1 - digits.length) '0' ++ digits
  padded.splitAt (padded.length - places)

/-- The two sides of a point, which is left out if nothing stands behind it. -/
def joinPoint (whole fraction : List Char) : List Char :=
  if fraction.isEmpty then whole else whole ++ '.' :: fraction

/-- A decimal value in positional notation, without zeros at the end of the fraction. -/
def positional (value : Scientific) : List Char :=
  let (whole, fraction) :=
    pointed (value.digits * Nat.pow 10 value.exponent.toNat) (-value.exponent).toNat
  joinPoint whole (fraction.reverse.dropWhile (· == '0')).reverse

/-- The sign before a number. -/
def signed (sign : UnpackedFloat.Sign) (digits : List Char) : List Char :=
  match sign with
  | .negative => '-' :: digits
  | .positive => digits

/-- The text of a value, whose finite magnitudes are written by `finite`. -/
def format (finite : Nat → Int → List Char) : UnpackedFloat → String
  | .notANumber => "NaN"
  | .infinity sign => String.ofList (signed sign ['i', 'n', 'f'])
  | .zero sign => String.ofList (signed sign (finite 0 0))
  | .finite sign m e _ => String.ofList (signed sign (finite m e))

/-- The fewest digits that read back, for any binary format. -/
def displayIn (binary : Format) : UnpackedFloat → String :=
  format fun m e => if m = 0 then ['0'] else positional (shortest binary m e)

/-- The fewest digits that read back. -/
def display (x : Float) : String := displayIn .binary64 x.toModel.unpack

/-- The fewest digits that read back, for a value of single precision. -/
def display32 (x : Float32) : String := displayIn .binary32 x.toModel.unpack

/-- The value with `places` digits behind the point. -/
def fixed (places : Nat) (x : Float) : String :=
  format (fun m e =>
    let scaled := (Fraction.ofBinary m e).scale (-places)
    let (whole, fraction) := pointed (roundDiv scaled.num scaled.den) places
    joinPoint whole fraction) x.toModel.unpack

/-- The digits of a positive value rounded to `places + 1` digits, and the place of the first. -/
def leadingDigits (places : Nat) (value : Fraction) : Nat × Int :=
  let place := value.leadingPlace
  let scaled := value.scale (place - 1 - places)
  let digits := roundDiv scaled.num scaled.den
  if digitCount digits ≤ places + 1 then (digits, place - 1) else (digits / 10, place)

/-- The value with one digit before the point, `places` digits behind it, and a power of ten. -/
def scientific (places : Nat) (x : Float) : String :=
  format (fun m e =>
    let (digits, exponent) := if m = 0 then (0, 0) else leadingDigits places (.ofBinary m e)
    let (whole, fraction) := pointed digits places
    joinPoint whole fraction ++ 'e' :: (toString exponent).toList) x.toModel.unpack

end PenPlot.Decimal
