import Mathlib.Tactic.FieldSimp
import PenPlot.Proofs.Arcs

/-!
# Products of transforms

Over exact arithmetic transforms are a monoid under their product, which acts on points: the product of
two maps a point by the inner one and then by the outer one. Determinants multiply, and the transforms
with an inverse are those whose determinant is not zero.

Rotations about one pivot are put together by adding their angles, so each is undone by the rotation
with the opposite angle. That comes from the addition theorems by the laws of the monoid alone, since the
shifts to the pivot and back cancel where two such rotations meet.
-/

namespace PenPlot.Affine

open Exact

theorem identity_comp (m : Affine ℝ) : identity.comp m = m := by
  ext <;> simp [comp, identity]

theorem apply_identity (p : Point ℝ) : identity.apply p = ⟨p.x, p.y⟩ := by
  simp [apply, identity]

theorem determinant_comp (outer inner : Affine ℝ) :
    (outer.comp inner).determinant = outer.determinant * inner.determinant := by
  simp only [determinant, comp]
  ring

/-! ## Inverses -/

/-- The transform that undoes `m`, unless its determinant is zero. -/
noncomputable def inverse (m : Affine ℝ) : Affine ℝ where
  a := m.d / m.determinant
  b := -m.b / m.determinant
  c := -m.c / m.determinant
  d := m.a / m.determinant
  e := -(m.d / m.determinant * m.e + -m.c / m.determinant * m.f)
  f := -(-m.b / m.determinant * m.e + m.a / m.determinant * m.f)

theorem invert?_eq_none {m : Affine ℝ} (h : m.determinant = 0) : m.invert? = none := by
  simp [invert?, h]

/-- No real number is out of range. -/
theorem invert?_eq_some {m : Affine ℝ} (h : m.determinant ≠ 0) : m.invert? = some m.inverse := by
  have hfinite : Scalar.isFinite m.determinant = true := rfl
  simp [invert?, inverse, h, hfinite]

theorem eq_identity_iff {m : Affine ℝ} :
    m = identity ↔ m.a = 1 ∧ m.b = 0 ∧ m.c = 0 ∧ m.d = 1 ∧ m.e = 0 ∧ m.f = 0 := by
  cases m
  simp [identity]

theorem comp_inverse {m : Affine ℝ} (h : m.determinant ≠ 0) : m.comp m.inverse = identity := by
  have hdet : m.a * m.d - m.b * m.c = m.determinant := rfl
  rw [eq_identity_iff]
  simp only [comp, inverse]
  set det := m.determinant
  refine ⟨?_, ?_, ?_, ?_, ?_, ?_⟩
  · field_simp
    linear_combination hdet
  · field_simp
    ring
  · field_simp
    ring
  · field_simp
    linear_combination hdet
  · field_simp
    linear_combination (-m.e) * hdet
  · field_simp
    linear_combination (-m.f) * hdet

theorem inverse_comp {m : Affine ℝ} (h : m.determinant ≠ 0) : m.inverse.comp m = identity := by
  have hdet : m.a * m.d - m.b * m.c = m.determinant := rfl
  rw [eq_identity_iff]
  simp only [comp, inverse]
  set det := m.determinant
  -- The shift of the inverse is chosen to cancel, whatever the other coefficients are.
  refine ⟨?_, ?_, ?_, ?_, by ring, by ring⟩
  · field_simp
    linear_combination hdet
  · field_simp
    ring
  · field_simp
    ring
  · field_simp
    linear_combination hdet

/-! ## Rotations about a pivot -/

theorem rotate_comp (first second : ℝ) :
    (rotate first).comp (rotate second) = rotate (first + second) := by
  have hcos : Scalar.cos (first + second) =
      Scalar.cos first * Scalar.cos second - Scalar.sin first * Scalar.sin second :=
    Real.cos_add first second
  have hsin : Scalar.sin (first + second) =
      Scalar.sin first * Scalar.cos second + Scalar.cos first * Scalar.sin second :=
    Real.sin_add first second
  ext <;> simp only [rotate, comp, hcos, hsin, ofNat_eq, Nat.cast_zero] <;> ring

theorem rotate_zero : rotate (0 : ℝ) = identity := by
  have hcos : Scalar.cos (0 : ℝ) = 1 := Real.cos_zero
  have hsin : Scalar.sin (0 : ℝ) = 0 := Real.sin_zero
  simp [rotate, identity, hcos, hsin]

theorem translate_neg_comp (tx ty : ℝ) :
    (translate (-tx) (-ty)).comp (translate tx ty) = identity := by
  simp [translate, comp, identity]

theorem translate_comp_neg (tx ty : ℝ) :
    (translate tx ty).comp (translate (-tx) (-ty)) = identity := by
  simp [translate, comp, identity]

theorem rotateAround_comp (first second : ℝ) (pivot : Point ℝ) :
    (rotateAround first pivot).comp (rotateAround second pivot) =
      rotateAround (first + second) pivot := by
  set here := translate pivot.x pivot.y
  set back := translate (-pivot.x) (-pivot.y)
  have hmeet : back.comp here = identity := translate_neg_comp pivot.x pivot.y
  calc ((here.comp (rotate first)).comp back).comp ((here.comp (rotate second)).comp back)
      = here.comp ((rotate first).comp ((back.comp here).comp ((rotate second).comp back))) := by
        simp only [comp_assoc]
    _ = here.comp (((rotate first).comp (rotate second)).comp back) := by
        rw [hmeet, identity_comp, comp_assoc]
    _ = (here.comp (rotate (first + second))).comp back := by
        rw [rotate_comp, comp_assoc]

theorem rotateAround_zero (pivot : Point ℝ) : rotateAround 0 pivot = identity := by
  rw [rotateAround, rotate_zero, comp_identity, translate_comp_neg]

theorem rotateAround_pivot (angle : ℝ) (pivot : Point ℝ) :
    (rotateAround angle pivot).apply pivot = ⟨pivot.x, pivot.y⟩ := by
  simp only [rotateAround_apply, sub_self, mul_zero, add_zero]

/-! ## The laws -/

/-- Transforms are a monoid that acts on points. Determinants multiply; a transform is inverted just if
its determinant is not zero, and then its inverse undoes it on both sides. A rotation about a pivot leaves
the pivot where it is, and is undone by the opposite one. -/
theorem monoid_laws :
    (∀ first second third : Affine ℝ,
      (first.comp second).comp third = first.comp (second.comp third)) ∧
    (∀ m : Affine ℝ, identity.comp m = m ∧ m.comp identity = m) ∧
    (∀ p : Point ℝ, identity.apply p = ⟨p.x, p.y⟩) ∧
    (∀ (outer inner : Affine ℝ) (p : Point ℝ),
      (outer.comp inner).apply p = outer.move (inner.apply p)) ∧
    (∀ outer inner : Affine ℝ,
      (outer.comp inner).determinant = outer.determinant * inner.determinant) ∧
    (∀ m : Affine ℝ,
      (m.determinant = 0 ∧ m.invert? = none) ∨
        (m.determinant ≠ 0 ∧ ∃ inverse : Affine ℝ,
          m.invert? = some inverse ∧ m.comp inverse = identity ∧ inverse.comp m = identity)) ∧
    ∀ (angle : ℝ) (pivot : Point ℝ),
      (rotateAround angle pivot).apply pivot = ⟨pivot.x, pivot.y⟩ ∧
        (rotateAround angle pivot).comp (rotateAround (-angle) pivot) = identity ∧
        (rotateAround (-angle) pivot).comp (rotateAround angle pivot) = identity := by
  refine ⟨comp_assoc, fun m => ⟨identity_comp m, comp_identity m⟩, apply_identity, apply_comp,
    determinant_comp, ?_, ?_⟩
  · intro m
    by_cases hdet : m.determinant = 0
    · exact .inl ⟨hdet, invert?_eq_none hdet⟩
    · exact .inr ⟨hdet, m.inverse, invert?_eq_some hdet, comp_inverse hdet, inverse_comp hdet⟩
  · intro angle pivot
    refine ⟨rotateAround_pivot angle pivot, ?_, ?_⟩
    · rw [rotateAround_comp, add_neg_cancel, rotateAround_zero]
    · rw [rotateAround_comp, neg_add_cancel, rotateAround_zero]

end PenPlot.Affine
