import PenPlot.Scalar

/-!
# Machine arithmetic

Binary floating point of 64 bits as a scalar type. Every operation rounds its exact result to the
nearest value, a tie to the even one. The remainder needs no rounding: with both values written as
whole multiples of the smaller unit, it is the remainder of whole numbers, and no longer than they
are.
-/

namespace PenPlot.Machine

/-- The value nearest to `mantissa * 10 ^ exponent`. -/
def ofDecimal (mantissa : Nat) (exponent : Int) : Float :=
  Float.ofScientific mantissa (decide (exponent < 0)) exponent.natAbs

/-- The undefined result. -/
def undefined : Float := 0.0 / 0.0

open Float.Model in
/-- What is left of `x` after taking away whole multiples of `y`, with the sign of `x`. -/
def remainder (x y : Float) : Float :=
  match x.toModel.unpack, y.toModel.unpack with
  | .finite sign m e _, .finite _ n f _ =>
    let low := min e f
    let rest := (m <<< (e - low).toNat) % (n <<< (f - low).toNat)
    Float.ofModel (pack (.round .binary64 sign rest low))
  | .finite .., .infinity _ => x
  | .zero _, .finite .. => x
  | .zero _, .infinity _ => x
  | _, _ => undefined

instance instScalar : Scalar Float where
  decidableLT := inferInstance
  decidableLE := inferInstance
  ofDecimal := ofDecimal
  pi := 3.141592653589793
  isFinite := Float.isFinite
  abs := Float.abs
  sqrt := Float.sqrt
  sin := Float.sin
  cos := Float.cos
  tan := Float.tan
  atan2 := Float.atan2
  remainder := remainder
  wholePart x := x.toUInt64.toNat

end PenPlot.Machine
