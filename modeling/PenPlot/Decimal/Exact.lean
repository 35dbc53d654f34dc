import PenPlot.Decimal.Rounding

/-!
# Binary values as fractions

A finite binary value is `m * 2 ^ e` for whole numbers `m` and `e`. Its decimal digits are those of
an exact fraction of whole numbers, so that nothing is lost before the one rounding that a format
asks for.
-/

namespace PenPlot.Decimal

/-- A fraction of whole numbers. -/
structure Fraction where
  /-- The numerator. -/
  num : Nat
  /-- The denominator. -/
  den : Nat
  deriving DecidableEq, Repr

/-- The value `m * 2 ^ e`. -/
def Fraction.ofBinary (m : Nat) (e : Int) : Fraction :=
  ⟨m <<< e.toNat, 1 <<< (-e).toNat⟩

/-- The value divided by `10 ^ e`. -/
def Fraction.scale (x : Fraction) (e : Int) : Fraction :=
  ⟨x.num * Nat.pow 10 (-e).toNat, x.den * Nat.pow 10 e.toNat⟩

/-- The place `k` of the leading digit of a positive value, which lies in `[10 ^ (k - 1), 10 ^ k)`. -/
def Fraction.leadingPlace (x : Fraction) : Int :=
  if x.den ≤ x.num then digitCount (x.num / x.den)
  else 1 - digitCount ((x.den + x.num - 1) / x.num - 1)

/-- A decimal value, `digits * 10 ^ exponent`. -/
structure Scientific where
  /-- The digits, as a whole number. -/
  digits : Nat
  /-- The power of ten that the last digit counts. -/
  exponent : Int
  deriving DecidableEq, Repr

end PenPlot.Decimal
