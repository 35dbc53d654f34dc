import Mathlib.Analysis.SpecialFunctions.Complex.Arg
import Mathlib.Algebra.Order.Floor.Semiring
import Mathlib.Tactic.Ring
import PenPlot.Geometry.Arc

/-!
# Exact arithmetic

The real numbers as a scalar type. Nothing is rounded, decimals have the value that they are written
with, and the angle of a direction is that of a complex number, in `(-π, π]`. Over them the laws of the
geometry hold as equations.

The numerals of a scalar type are decimals. `ofNat_eq` takes them back to the numerals of the reals.
-/

namespace PenPlot.Exact

/-- The whole number nearest to a real on the way to zero. -/
noncomputable def truncate (x : ℝ) : ℤ := if 0 ≤ x then ⌊x⌋ else ⌈x⌉

noncomputable scoped instance instScalar : Scalar ℝ where
  toAdd := inferInstance
  toSub := inferInstance
  toMul := inferInstance
  toDiv := inferInstance
  toNeg := inferInstance
  toLT := inferInstance
  toLE := inferInstance
  beq x y := decide (x = y)
  decidableLT := inferInstance
  decidableLE := inferInstance
  ofDecimal mantissa exponent := mantissa * 10 ^ exponent
  pi := Real.pi
  isFinite _ := true
  abs x := |x|
  sqrt := Real.sqrt
  sin := Real.sin
  cos := Real.cos
  tan := Real.tan
  atan2 y x := Complex.arg ⟨x, y⟩
  remainder x y := x - y * truncate (x / y)
  wholePart x := ⌊x⌋₊

@[simp] theorem ofNat_eq (n : ℕ) : (@OfNat.ofNat ℝ n (Scalar.instOfNat n)) = (n : ℝ) := by
  show (n : ℝ) * 10 ^ (0 : ℤ) = n
  rw [zpow_zero, mul_one]

@[simp] theorem ofCount_eq (n : ℕ) : (Scalar.ofCount n : ℝ) = n := ofNat_eq n

theorem turn_eq : (Scalar.turn : ℝ) = 2 * Real.pi := by
  have htwo := ofNat_eq 2
  rw [Nat.cast_ofNat] at htwo
  exact congrArg (· * Real.pi) htwo

@[simp] theorem beq_eq (x y : ℝ) : (instScalar.toBEq.beq x y) = decide (x = y) := rfl

end PenPlot.Exact

namespace PenPlot.Affine

open Exact

@[ext]
theorem eq_of_coefficients {α : Type} {m n : Affine α} (ha : m.a = n.a) (hb : m.b = n.b)
    (hc : m.c = n.c) (hd : m.d = n.d) (he : m.e = n.e) (hf : m.f = n.f) : m = n := by
  cases m
  cases n
  simp_all

/-- Products may be bracketed in any way. -/
theorem comp_assoc (first second third : Affine ℝ) :
    (first.comp second).comp third = first.comp (second.comp third) := by
  ext <;> simp only [comp] <;> ring

theorem comp_identity (m : Affine ℝ) : m.comp identity = m := by
  ext <;> simp [comp, identity]

end PenPlot.Affine
