/-!
# Scalars

Drawings are computed with coordinates, and the same formulas are wanted twice: in machine
arithmetic, which runs them, and in exact arithmetic, in which the laws of the geometry hold. A
`Scalar` type has just the operations that the formulas use. Everything that carries a coordinate
in this library is written over an arbitrary scalar type, so that whatever is shown of it holds of
every arithmetic that it is instantiated with.

Nothing is assumed of the operations. In particular a comparison may fail in both directions, as it
does for a value that is not a number, and the derived operations below say what happens then.
-/

namespace PenPlot

/-- The arithmetic that drawings are computed with. -/
class Scalar (α : Type) extends Add α, Sub α, Mul α, Div α, Neg α, LT α, LE α, BEq α where
  /-- The order can be tested. -/
  decidableLT : DecidableLT α
  /-- The order can be tested, ends included. -/
  decidableLE : DecidableLE α
  /-- The scalar nearest to `mantissa * 10 ^ exponent`. -/
  ofDecimal (mantissa : Nat) (exponent : Int) : α
  /-- Half a turn, in radians. -/
  pi : α
  /-- Neither an overflow nor an undefined result. -/
  isFinite : α → Bool
  /-- The absolute value. -/
  abs : α → α
  /-- The square root. -/
  sqrt : α → α
  /-- The sine of an angle in radians. -/
  sin : α → α
  /-- The cosine of an angle in radians. -/
  cos : α → α
  /-- The tangent of an angle in radians. -/
  tan : α → α
  /-- The angle of the direction with ordinate `y` and abscissa `x`, in that order. -/
  atan2 (y x : α) : α
  /-- What is left of `x` after taking away whole multiples of `y` toward zero. -/
  remainder (x y : α) : α
  /-- The whole part of a value that is not negative, and 0 for all others. -/
  wholePart : α → Nat

attribute [reducible, instance] Scalar.decidableLT Scalar.decidableLE

variable {α : Type} [Scalar α]

/-- Numerals of a scalar type are its whole numbers, where the type has no numerals of its own. -/
instance (priority := 50) Scalar.instOfNat (n : Nat) : OfNat α n := ⟨Scalar.ofDecimal n 0⟩

namespace Scalar

/-- The scalar of a count. -/
def ofCount (n : Nat) : α := ofDecimal n 0

/-- The smaller of two values; one that does not even compare with itself gives way to the other. -/
def lesser (x y : α) : α := if x ≤ y then x else if y ≤ y then y else x

/-- The value where it is positive, and 0 everywhere else. -/
def positivePart (x : α) : α := if 0 < x then x else 0

/-- The value moved into the unit interval. -/
def clampUnit (x : α) : α := if x < 0 then 0 else if 1 < x then 1 else x

/-- The remainder moved up into `[0, |y|)` when it is negative. -/
def wrap (x y : α) : α :=
  let r := remainder x y
  if r < 0 then r + abs y else r

/-- An angle in degrees, as radians. -/
def ofDegrees (degrees : α) : α := degrees * (pi / 180)

/-- A full turn, in radians. -/
def turn : α := 2 * pi

/-- A quarter of a turn, in radians. -/
def quarterTurn : α := pi / 2

end Scalar

end PenPlot
