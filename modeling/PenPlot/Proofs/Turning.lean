import Mathlib.Analysis.SpecialFunctions.Complex.Arg
import Mathlib.Tactic.LinearCombination

/-!
# Directions and turns

The direction of a point is the angle at which it is seen from the origin. To turn from one direction
to another there are two ways, one along growing angles and one against them, which make a full turn
together. Both lead to the same sine and cosine; which of them is taken decides whether the turn is more
than half of a full one.
-/

namespace PenPlot

open Real

/-- The direction of the point `(x, y)`, as an angle in `(-π, π]`. -/
noncomputable def direction (x y : ℝ) : ℝ := Complex.arg ⟨x, y⟩

section

variable {x y : ℝ}

theorem norm_mk_eq_one (h : x * x + y * y = 1) : ‖(⟨x, y⟩ : ℂ)‖ = 1 := by
  rw [Complex.norm_def, Complex.normSq_mk, h, Real.sqrt_one]

theorem cos_direction (h : x * x + y * y = 1) : cos (direction x y) = x := by
  have hne : (⟨x, y⟩ : ℂ) ≠ 0 := by
    rw [← norm_ne_zero_iff, norm_mk_eq_one h]
    exact one_ne_zero
  rw [direction, Complex.cos_arg hne, norm_mk_eq_one h, div_one]

theorem sin_direction (h : x * x + y * y = 1) : sin (direction x y) = y := by
  rw [direction, Complex.sin_arg, norm_mk_eq_one h, div_one]

theorem neg_pi_lt_direction : -π < direction x y := Complex.neg_pi_lt_arg _

theorem direction_le_pi : direction x y ≤ π := Complex.arg_le_pi _

theorem direction_neg_iff : direction x y < 0 ↔ y < 0 := Complex.arg_neg_iff

theorem direction_pos (h : 0 < y) : 0 < direction x y := by
  have hnonneg : 0 ≤ direction x y := Complex.arg_nonneg_iff.2 h.le
  refine lt_of_le_of_ne hnonneg fun hzero => ?_
  have him := (Complex.arg_eq_zero_iff.1 hzero.symm).2
  exact h.ne' him

theorem direction_lt_pi (h : y ≠ 0) : direction x y < π := Complex.arg_lt_pi_iff.2 (.inr h)

theorem direction_eq_pi (hx : x < 0) (hy : y = 0) : direction x y = π :=
  Complex.arg_eq_pi_iff.2 ⟨hx, hy⟩

end

/-- The direction of one point of the unit circle as it is seen from another. -/
noncomputable def directionFrom (ux uy vx vy : ℝ) : ℝ :=
  direction (ux * vx + uy * vy) (ux * vy - uy * vx)

section

variable {ux uy vx vy : ℝ}

/-- The point that is seen in that direction from a point of the unit circle is on the unit circle. -/
theorem dot_cross_unit (hu : ux * ux + uy * uy = 1) (hv : vx * vx + vy * vy = 1) :
    (ux * vx + uy * vy) * (ux * vx + uy * vy) + (ux * vy - uy * vx) * (ux * vy - uy * vx) = 1 := by
  linear_combination (vx * vx + vy * vy) * hu + hv

/-- Turning from one point of the unit circle in the direction of another leads there. -/
theorem cos_direction_add (hu : ux * ux + uy * uy = 1) (hv : vx * vx + vy * vy = 1) :
    cos (direction ux uy + directionFrom ux uy vx vy) = vx := by
  have hunit := dot_cross_unit hu hv
  rw [directionFrom, cos_add, cos_direction hu, sin_direction hu, cos_direction hunit,
    sin_direction hunit]
  linear_combination vx * hu

theorem sin_direction_add (hu : ux * ux + uy * uy = 1) (hv : vx * vx + vy * vy = 1) :
    sin (direction ux uy + directionFrom ux uy vx vy) = vy := by
  have hunit := dot_cross_unit hu hv
  rw [directionFrom, sin_add, cos_direction hu, sin_direction hu, cos_direction hunit,
    sin_direction hunit]
  linear_combination vy * hu

end

/-- The turn that an angle in `(-π, π]` stands for, made along growing angles or against them. -/
noncomputable def turnAlong (growing : Bool) (angle : ℝ) : ℝ :=
  if !growing && decide (0 < angle) then angle - 2 * π
  else if growing && decide (angle < 0) then angle + 2 * π
  else angle

section

variable {angle : ℝ}

theorem turnAlong_true_of_neg (h : angle < 0) : turnAlong true angle = angle + 2 * π := by
  simp [turnAlong, h]

theorem turnAlong_true_of_nonneg (h : 0 ≤ angle) : turnAlong true angle = angle := by
  simp [turnAlong, h.not_gt]

theorem turnAlong_false_of_pos (h : 0 < angle) : turnAlong false angle = angle - 2 * π := by
  simp [turnAlong, h]

theorem turnAlong_false_of_nonpos (h : angle ≤ 0) : turnAlong false angle = angle := by
  simp [turnAlong, h.not_gt]

/-- The two ways make a full turn together, so both lead to the same direction. -/
theorem turnAlong_eq (growing : Bool) (angle : ℝ) :
    turnAlong growing angle = angle ∨ turnAlong growing angle = angle + 2 * π ∨
      turnAlong growing angle = angle - 2 * π := by
  unfold turnAlong
  split
  · exact .inr (.inr rfl)
  · split
    · exact .inr (.inl rfl)
    · exact .inl rfl

theorem cos_add_turnAlong (start : ℝ) (growing : Bool) (angle : ℝ) :
    cos (start + turnAlong growing angle) = cos (start + angle) := by
  obtain h | h | h := turnAlong_eq growing angle
  · rw [h]
  · rw [h, ← add_assoc, cos_add_two_pi]
  · rw [h, ← add_sub_assoc, cos_sub_two_pi]

theorem sin_add_turnAlong (start : ℝ) (growing : Bool) (angle : ℝ) :
    sin (start + turnAlong growing angle) = sin (start + angle) := by
  obtain h | h | h := turnAlong_eq growing angle
  · rw [h]
  · rw [h, ← add_assoc, sin_add_two_pi]
  · rw [h, ← add_sub_assoc, sin_sub_two_pi]

/-- A turn is made along growing angles just if it is asked for so, and it is never empty. -/
theorem turnAlong_pos_iff (hne : angle ≠ 0) (hlow : -π < angle) (hhigh : angle ≤ π)
    (growing : Bool) :
    (0 < turnAlong growing angle ↔ growing = true) ∧ turnAlong growing angle ≠ 0 := by
  have hpi := pi_pos
  have hsign : if growing then 0 < turnAlong growing angle else turnAlong growing angle < 0 := by
    cases growing with
    | true =>
      obtain hneg | hpos := lt_or_gt_of_ne hne
      · rw [turnAlong_true_of_neg hneg]
        show 0 < angle + 2 * π
        linarith
      · rw [turnAlong_true_of_nonneg hpos.le]
        exact hpos
    | false =>
      obtain hneg | hpos := lt_or_gt_of_ne hne
      · rw [turnAlong_false_of_nonpos hneg.le]
        exact hneg
      · rw [turnAlong_false_of_pos hpos]
        show angle - 2 * π < 0
        linarith
  cases growing with
  | true => exact ⟨iff_of_true hsign rfl, ne_of_gt hsign⟩
  | false => exact ⟨iff_of_false (not_lt_of_gt hsign) Bool.false_ne_true, ne_of_lt hsign⟩

/-- A turn is more than half of a full one just if it is made against the sign of its angle. -/
theorem pi_lt_abs_turnAlong_iff (hne : angle ≠ 0) (hlow : -π < angle) (hhigh : angle < π)
    (growing : Bool) : π < |turnAlong growing angle| ↔ (0 < angle ↔ growing = false) := by
  have hpi := pi_pos
  obtain hneg | hpos := lt_or_gt_of_ne hne
  · cases growing with
    | true =>
      rw [turnAlong_true_of_neg hneg, abs_of_pos (by linarith)]
      exact iff_of_true (by linarith) (iff_of_false hneg.not_gt Bool.true_eq_false.mp)
    | false =>
      rw [turnAlong_false_of_nonpos hneg.le, abs_of_neg hneg]
      exact iff_of_false (by linarith) fun h => hneg.not_gt (h.2 rfl)
  · cases growing with
    | true =>
      rw [turnAlong_true_of_nonneg hpos.le, abs_of_pos hpos]
      exact iff_of_false hhigh.not_gt fun h => Bool.true_eq_false.mp (h.1 hpos)
    | false =>
      rw [turnAlong_false_of_pos hpos, abs_of_neg (by linarith)]
      exact iff_of_true (by linarith) (iff_of_true hpos rfl)

/-- Half a turn is half a turn either way. -/
theorem abs_turnAlong_pi (growing : Bool) : |turnAlong growing π| = π := by
  have hpi := pi_pos
  cases growing with
  | true => rw [turnAlong_true_of_nonneg hpi.le, abs_of_pos hpi]
  | false =>
    rw [turnAlong_false_of_pos hpi, abs_of_neg (by linarith)]
    ring

end

end PenPlot
