import Mathlib.Tactic.FieldSimp
import PenPlot.Proofs.Turning

/-!
# Chords of an ellipse

A chord is given by half of it, `(x, y)` from its middle to its first end, and the radii of an ellipse
that runs through both ends. In units of the radii the ellipse is the unit circle and half of the chord
is `(x / rx, y / ry)`, whose square is the `reach` of the chord. The centre lies off the middle of the
chord, at a right angle to it; how far, in half chords, is the `offset`. Its sign says on which side,
and so whether the way from the first end to the second along growing angles is the longer or the
shorter one.
-/

namespace PenPlot

open Real

/-- The square of half a chord in units of the radii. -/
noncomputable def reach (rx ry x y : ℝ) : ℝ := (x * x) / (rx * rx) + (y * y) / (ry * ry)

/-- The chord seen from the centre of the ellipse, in units of the radii. -/
structure IsChord (reach offset a b : ℝ) : Prop where
  /-- The reach is the square of half of the chord. -/
  square : a * a + b * b = reach
  /-- The ends lie on the unit circle. -/
  unit : (1 + offset * offset) * reach = 1
  /-- The ends are different. -/
  pos : 0 < reach

namespace IsChord

variable {r k a b : ℝ}

theorem first_unit (h : IsChord r k a b) :
    (a - k * b) * (a - k * b) + (b + k * a) * (b + k * a) = 1 := by
  linear_combination (1 + k * k) * h.square + h.unit

theorem second_unit (h : IsChord r k a b) :
    (-a - k * b) * (-a - k * b) + (-b + k * a) * (-b + k * a) = 1 := by
  linear_combination (1 + k * k) * h.square + h.unit

/-- The second end as it is seen from the first. -/
theorem directionFrom_eq (h : IsChord r k a b) :
    directionFrom (a - k * b) (b + k * a) (-a - k * b) (-b + k * a) =
      direction ((k * k - 1) * r) (2 * k * r) := by
  have hdot : (a - k * b) * (-a - k * b) + (b + k * a) * (-b + k * a) = (k * k - 1) * r := by
    linear_combination (k * k - 1) * h.square
  have hcross : (a - k * b) * (-b + k * a) - (b + k * a) * (-a - k * b) = 2 * k * r := by
    linear_combination 2 * k * h.square
  rw [directionFrom, hdot, hcross]

/-- If the centre is the middle, the ends are half a turn apart. -/
theorem directionFrom_eq_pi (h : IsChord r k a b) (hk : k = 0) :
    directionFrom (a - k * b) (b + k * a) (-a - k * b) (-b + k * a) = π := by
  have hpos := h.pos
  rw [h.directionFrom_eq]
  refine direction_eq_pi ?_ ?_
  · rw [hk]
    linarith
  · rw [hk]
    ring

theorem directionFrom_lt_pi (h : IsChord r k a b) (hk : k ≠ 0) :
    directionFrom (a - k * b) (b + k * a) (-a - k * b) (-b + k * a) < π := by
  rw [h.directionFrom_eq]
  refine direction_lt_pi ?_
  have hpos := h.pos
  positivity

/-- The side of the centre decides between the two ways from end to end. -/
theorem directionFrom_pos_iff (h : IsChord r k a b) :
    0 < directionFrom (a - k * b) (b + k * a) (-a - k * b) (-b + k * a) ↔ 0 ≤ k := by
  have hpos := h.pos
  obtain hneg | hnonneg := lt_or_ge k 0
  · have hcross : 2 * k * r < 0 := by nlinarith
    have hdirection := direction_neg_iff (x := (k * k - 1) * r).2 hcross
    rw [h.directionFrom_eq]
    exact iff_of_false hdirection.not_gt hneg.not_ge
  · refine iff_of_true ?_ hnonneg
    obtain hzero | hne := hnonneg.eq_or_lt
    · rw [h.directionFrom_eq_pi hzero.symm]
      exact pi_pos
    · rw [h.directionFrom_eq]
      refine direction_pos ?_
      positivity

theorem directionFrom_ne_zero (h : IsChord r k a b) :
    directionFrom (a - k * b) (b + k * a) (-a - k * b) (-b + k * a) ≠ 0 := by
  obtain hneg | hnonneg := lt_or_ge k 0
  · have hpos := h.pos
    have hcross : 2 * k * r < 0 := by nlinarith
    rw [h.directionFrom_eq]
    exact (direction_neg_iff.2 hcross).ne
  · exact (h.directionFrom_pos_iff.2 hnonneg).ne'

end IsChord

/-! ## The centre -/

/-- How far the centre is off the middle of the chord, in half chords, on whichever side. -/
noncomputable def offsetSize (rx ry x y : ℝ) : ℝ :=
  let ratio := (rx * rx * (ry * ry) - rx * rx * y * y - ry * ry * x * x) /
    (rx * rx * y * y + ry * ry * x * x)
  √(if 0 < ratio then ratio else 0)

section

variable {rx ry x y : ℝ}

theorem reach_eq : reach rx ry x y = x / rx * (x / rx) + y / ry * (y / ry) := by
  rw [reach, div_mul_div_comm, div_mul_div_comm]

theorem reach_nonneg : 0 ≤ reach rx ry x y := by
  rw [reach_eq]
  exact add_nonneg (mul_self_nonneg _) (mul_self_nonneg _)

/-- Only an empty chord has no reach. -/
theorem reach_pos (hrx : rx ≠ 0) (hry : ry ≠ 0) (h : x ≠ 0 ∨ y ≠ 0) : 0 < reach rx ry x y := by
  rw [reach_eq]
  obtain hx | hy := h
  · have hsquare : 0 < x / rx * (x / rx) := mul_self_pos.2 (div_ne_zero hx hrx)
    exact add_pos_of_pos_of_nonneg hsquare (mul_self_nonneg _)
  · have hsquare : 0 < y / ry * (y / ry) := mul_self_pos.2 (div_ne_zero hy hry)
    exact add_pos_of_nonneg_of_pos (mul_self_nonneg _) hsquare

/-- The centre is as far off as it takes for the ends to lie on the ellipse. -/
theorem offsetSize_square (hrx : rx ≠ 0) (hry : ry ≠ 0) (hpos : 0 < reach rx ry x y)
    (hle : reach rx ry x y ≤ 1) :
    offsetSize rx ry x y * offsetSize rx ry x y * reach rx ry x y = 1 - reach rx ry x y := by
  have hden : rx * rx * y * y + ry * ry * x * x = rx * rx * (ry * ry) * reach rx ry x y := by
    rw [reach]
    field_simp
    ring
  have hratio : (rx * rx * (ry * ry) - rx * rx * y * y - ry * ry * x * x) /
      (rx * rx * y * y + ry * ry * x * x) = (1 - reach rx ry x y) / reach rx ry x y := by
    have hnum : rx * rx * (ry * ry) - rx * rx * y * y - ry * ry * x * x =
        rx * rx * (ry * ry) * (1 - reach rx ry x y) := by
      linear_combination -hden
    rw [hnum, hden, mul_div_mul_left]
    positivity
  have hnonneg : 0 ≤ (1 - reach rx ry x y) / reach rx ry x y :=
    div_nonneg (by linarith) hpos.le
  have hcut : (if 0 < (1 - reach rx ry x y) / reach rx ry x y then
      (1 - reach rx ry x y) / reach rx ry x y else 0) =
        (1 - reach rx ry x y) / reach rx ry x y := by
    split
    · rfl
    · next hzero => exact le_antisymm hnonneg (not_lt.1 hzero)
  simp only [offsetSize, hratio, hcut]
  rw [Real.mul_self_sqrt hnonneg, div_mul_cancel₀ _ hpos.ne']

theorem offsetSize_nonneg : 0 ≤ offsetSize rx ry x y := Real.sqrt_nonneg _

end

/-! ## Radii that reach -/

/-- Radii that are enlarged by a factor reach less far in their own units. -/
theorem reach_mul (rx ry x y : ℝ) {g : ℝ} (hg : g ≠ 0) :
    reach (rx * g) (ry * g) x y * (g * g) = reach rx ry x y := by
  rw [reach_eq, reach_eq, div_mul_eq_div_div, div_mul_eq_div_div]
  field_simp

/-- Enlarged by the square root of their reach, if that is more than one, radii reach just from end to
end, and others remain. -/
theorem reach_mul_sqrt (rx ry x y : ℝ) :
    reach (rx * max 1 √(reach rx ry x y)) (ry * max 1 √(reach rx ry x y)) x y =
      min 1 (reach rx ry x y) := by
  obtain hle | hgt := le_or_gt (reach rx ry x y) 1
  · have hroot : √(reach rx ry x y) ≤ 1 := Real.sqrt_le_one.2 hle
    rw [max_eq_left hroot, mul_one, mul_one, min_eq_right hle]
  · have hroot : 1 ≤ √(reach rx ry x y) := Real.one_le_sqrt.2 hgt.le
    have hnonneg : 0 ≤ reach rx ry x y := reach_nonneg
    have hsquare := Real.mul_self_sqrt hnonneg
    have hscaled := reach_mul rx ry x y (g := √(reach rx ry x y)) (by positivity)
    rw [hsquare] at hscaled
    rw [max_eq_right hroot, min_eq_left hgt.le]
    exact mul_right_cancel₀ (by positivity) (hscaled.trans (one_mul _).symm)

/-! ## Units of the radii -/

section

variable {rx ry : ℝ}

/-- The first coordinate of an end as it is seen from a centre that is off by `k` half chords. -/
theorem sub_offset_div (hrx : rx ≠ 0) (x y k : ℝ) :
    (x - k * rx * y / ry) / rx = x / rx - k * (y / ry) := by
  have hcancel : k * rx * y / ry / rx = k * (y / ry) := by
    rw [div_div, mul_comm ry rx, ← div_div, mul_right_comm, mul_div_cancel_right₀ _ hrx,
      mul_div_assoc]
  rw [sub_div, hcancel]

/-- The second coordinate, for which the centre is off to the other side. -/
theorem sub_neg_offset_div (hry : ry ≠ 0) (x y k : ℝ) :
    (y - -k * ry * x / rx) / ry = y / ry + k * (x / rx) := by
  rw [sub_offset_div hry, neg_mul, sub_neg_eq_add]

end

/-- Turning half a chord into the frame of the ellipse does not change its length. -/
theorem halfChord_square (φ hx hy : ℝ) :
    (cos φ * hx + sin φ * hy) * (cos φ * hx + sin φ * hy) +
      (-sin φ * hx + cos φ * hy) * (-sin φ * hx + cos φ * hy) = hx * hx + hy * hy := by
  linear_combination (hx * hx + hy * hy) * cos_sq_add_sin_sq φ

end PenPlot
