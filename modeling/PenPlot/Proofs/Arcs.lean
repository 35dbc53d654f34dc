import PenPlot.Proofs.Chords
import PenPlot.Proofs.Mapping

/-!
# Arcs from end to end

Over exact arithmetic an arc runs from where the path is to where it is told to end, on an ellipse with
the radii that are asked for, or with the smallest ones in the same proportion that reach. The flags
choose among the arcs of such ellipses between the two points: one says in which sense the arc runs, the
other whether it is the longer one.

The computation of the centre and the angles is taken apart into its stages first, for any arithmetic.
In units of the radii the ends of the arc are then the ends of a chord of the unit circle.
-/

namespace PenPlot

/-! ## The stages of the computation -/

namespace Arc

section Stages

variable {α : Type} [Scalar α] (start : Point α) (arc : Arc α)

open Scalar

/-- Half of the chord, from its middle to the start, in the frame of the ellipse. -/
def halfChord : Point α :=
  let half := (start - arc.stop) * (ofDecimal 5 (-1) : α)
  ⟨cos arc.rotation * half.x + sin arc.rotation * half.y,
    -sin arc.rotation * half.x + cos arc.rotation * half.y⟩

/-- The square of half of the chord in units of the radii. -/
def ratio : α :=
  let half := arc.halfChord start
  (half.x * half.x) / (abs arc.rx * abs arc.rx) + (half.y * half.y) / (abs arc.ry * abs arc.ry)

/-- The radii, enlarged if they are too small to reach. -/
def enlarged : α × α :=
  if 1 < arc.ratio start then
    (abs arc.rx * sqrt (arc.ratio start), abs arc.ry * sqrt (arc.ratio start))
  else (abs arc.rx, abs arc.ry)

/-- How far the centre is off the middle of the chord, in half chords. -/
def offset (rx ry x y : α) : α :=
  let rx2 := rx * rx
  let ry2 := ry * ry
  let root := sqrt (positivePart
    ((rx2 * ry2 - rx2 * y * y - ry2 * x * x) / (rx2 * y * y + ry2 * x * x)))
  if arc.large = arc.sweep then -root else root

/-- How far the arc runs if `angle` is the direction of its end as it is seen from its start. -/
def turned (angle : α) : α :=
  if !arc.sweep && decide (0 < angle) then angle - turn
  else if arc.sweep && decide (angle < 0) then angle + turn
  else angle

/-- How far the centre is off the middle of the chord, in the frame of the ellipse. -/
def offCenter : Point α :=
  let half := arc.halfChord start
  let rx := (arc.enlarged start).1
  let ry := (arc.enlarged start).2
  let offset := arc.offset rx ry half.x half.y
  ⟨offset * rx * half.y / ry, -offset * ry * half.x / rx⟩

/-- A point of the frame as it is seen from the centre, in units of the radii. -/
def fromCenter (x y : α) : Point α :=
  ⟨(x - (arc.offCenter start).x) / (arc.enlarged start).1,
    (y - (arc.offCenter start).y) / (arc.enlarged start).2⟩

/-- The middle of the chord. -/
def middle : Point α := (start + arc.stop) * (ofDecimal 5 (-1) : α)

/-- The part of an ellipse that the arc is, if its ends are different and no radius is zero. -/
def ellipse : EllipticalArc α :=
  let half := arc.halfChord start
  let off := arc.offCenter start
  let first := arc.fromCenter start half.x half.y
  let second := arc.fromCenter start (-half.x) (-half.y)
  { center := ⟨cos arc.rotation * off.x - sin arc.rotation * off.y + (arc.middle start).x,
      sin arc.rotation * off.x + cos arc.rotation * off.y + (arc.middle start).y⟩
    rx := (arc.enlarged start).1
    ry := (arc.enlarged start).2
    rotation := arc.rotation
    startAngle := atan2 first.y first.x
    deltaAngle := arc.turned
      (atan2 (first.x * second.y - first.y * second.x) (first.x * second.x + first.y * second.y)) }

theorem shape_eq : arc.shape start =
    if start == arc.stop then .omitted
    else if abs arc.rx == 0 || abs arc.ry == 0 then .straight
    else .elliptical (arc.ellipse start) := rfl

end Stages

end Arc

/-! ## The stages in exact arithmetic -/

theorem half_add_half : Exact.instScalar.ofDecimal 5 (-1) + Exact.instScalar.ofDecimal 5 (-1) = 1 := by
  show ((5 : ℕ) : ℝ) * (10 : ℝ) ^ (-1 : ℤ) + ((5 : ℕ) : ℝ) * (10 : ℝ) ^ (-1 : ℤ) = 1
  norm_num

theorem half_lt_one : Exact.instScalar.ofDecimal 5 (-1) < (1 : ℝ) := by
  show ((5 : ℕ) : ℝ) * (10 : ℝ) ^ (-1 : ℤ) < 1
  norm_num

open Exact

namespace Arc

variable {start : Point ℝ} {arc : Arc ℝ}

/-- Over the reals the tests for what an arc is drawn as are equations. -/
theorem shape_eq_ite (start : Point ℝ) (arc : Arc ℝ) : arc.shape start =
    if start = arc.stop then .omitted
    else if arc.rx = 0 ∨ arc.ry = 0 then .straight
    else .elliptical (arc.ellipse start) := by
  have hends : (start == arc.stop) = true ↔ start = arc.stop := by
    obtain ⟨x, y⟩ := start
    rw [Point.mk.injEq]
    exact Bool.and_eq_true_iff.trans (and_congr decide_eq_true_iff decide_eq_true_iff)
  have hradius : ∀ r : ℝ, (Scalar.abs r == ((0 : ℕ) : ℝ)) = true ↔ r = 0 := by
    intro r
    rw [beq_eq, decide_eq_true_iff, Nat.cast_zero]
    exact abs_eq_zero
  simp only [shape_eq, ofNat_eq, Bool.or_eq_true, hends, hradius]

theorem shape_of_ne (hne : start ≠ arc.stop) (hrx : arc.rx ≠ 0) (hry : arc.ry ≠ 0) :
    arc.shape start = .elliptical (arc.ellipse start) := by
  rw [shape_eq_ite, if_neg hne, if_neg (not_or.2 ⟨hrx, hry⟩)]

theorem ratio_eq :
    arc.ratio start = reach |arc.rx| |arc.ry| (arc.halfChord start).x (arc.halfChord start).y := rfl

theorem enlarged_eq : arc.enlarged start =
    (|arc.rx| * max 1 √(arc.ratio start), |arc.ry| * max 1 √(arc.ratio start)) := by
  rw [enlarged, ofNat_eq, Nat.cast_one]
  split
  · next h =>
    rw [max_eq_right (Real.one_le_sqrt.2 h.le)]
    rfl
  · next h =>
    rw [max_eq_left (Real.sqrt_le_one.2 (not_lt.1 h)), mul_one, mul_one]
    rfl

theorem offset_eq (rx ry x y : ℝ) : arc.offset rx ry x y =
    if arc.large = arc.sweep then -offsetSize rx ry x y else offsetSize rx ry x y := by
  have hpart : ∀ z : ℝ, Scalar.positivePart z = if 0 < z then z else 0 := by
    intro z
    rw [Scalar.positivePart, ofNat_eq, Nat.cast_zero]
  rw [offset, hpart]
  rfl

theorem turned_eq (angle : ℝ) : arc.turned angle = turnAlong arc.sweep angle := by
  rw [turned, turnAlong, turn_eq, ofNat_eq, Nat.cast_zero]

/-- The ends of the chord are different in the frame of the ellipse too. -/
theorem halfChord_ne (hne : start ≠ arc.stop) :
    (arc.halfChord start).x ≠ 0 ∨ (arc.halfChord start).y ≠ 0 := by
  by_contra hzero
  rw [not_or, not_not, not_not] at hzero
  have hone := half_add_half
  set half := instScalar.ofDecimal 5 (-1)
  have hsquare : (arc.halfChord start).x * (arc.halfChord start).x +
      (arc.halfChord start).y * (arc.halfChord start).y =
        (start.x - arc.stop.x) * half * ((start.x - arc.stop.x) * half) +
          (start.y - arc.stop.y) * half * ((start.y - arc.stop.y) * half) :=
    halfChord_square arc.rotation ((start.x - arc.stop.x) * half) ((start.y - arc.stop.y) * half)
  rw [hzero.1, hzero.2, mul_zero, add_zero] at hsquare
  have hparts := (add_eq_zero_iff_of_nonneg (mul_self_nonneg _) (mul_self_nonneg _)).1 hsquare.symm
  have hhalf : half ≠ 0 := by
    intro h
    rw [h, add_zero] at hone
    exact zero_ne_one hone
  have hx : start.x - arc.stop.x = 0 :=
    (mul_eq_zero.1 (mul_self_eq_zero.1 hparts.1)).resolve_right hhalf
  have hy : start.y - arc.stop.y = 0 :=
    (mul_eq_zero.1 (mul_self_eq_zero.1 hparts.2)).resolve_right hhalf
  refine hne ?_
  cases start
  rw [Point.mk.injEq]
  exact ⟨sub_eq_zero.1 hx, sub_eq_zero.1 hy⟩

/-! ## The ends on the ellipse -/

theorem enlarged_ne (start : Point ℝ) (hrx : arc.rx ≠ 0) (hry : arc.ry ≠ 0) :
    (arc.enlarged start).1 ≠ 0 ∧ (arc.enlarged start).2 ≠ 0 := by
  have hgrow : max 1 √(arc.ratio start) ≠ 0 := (lt_max_of_lt_left one_pos).ne'
  rw [enlarged_eq]
  exact ⟨mul_ne_zero (abs_ne_zero.2 hrx) hgrow, mul_ne_zero (abs_ne_zero.2 hry) hgrow⟩

/-- How far the centre is off the middle of the chord, in half chords. -/
noncomputable def chordOffset (start : Point ℝ) (arc : Arc ℝ) : ℝ :=
  arc.offset (arc.enlarged start).1 (arc.enlarged start).2 (arc.halfChord start).x
    (arc.halfChord start).y

/-- Half of the chord in units of the radii. -/
noncomputable def unitChord (start : Point ℝ) (arc : Arc ℝ) : Point ℝ :=
  ⟨(arc.halfChord start).x / (arc.enlarged start).1,
    (arc.halfChord start).y / (arc.enlarged start).2⟩

/-- The chord is one of the unit circle in units of the radii. -/
theorem isChord (hne : start ≠ arc.stop) (hrx : arc.rx ≠ 0) (hry : arc.ry ≠ 0) :
    IsChord (min 1 (arc.ratio start)) (arc.chordOffset start) (arc.unitChord start).x
      (arc.unitChord start).y := by
  obtain ⟨hx, hy⟩ := enlarged_ne start hrx hry
  have hreach : reach (arc.enlarged start).1 (arc.enlarged start).2 (arc.halfChord start).x
      (arc.halfChord start).y = min 1 (arc.ratio start) := by
    rw [enlarged_eq, ratio_eq]
    exact reach_mul_sqrt _ _ _ _
  have hpos := reach_pos hx hy (halfChord_ne hne)
  have hle : reach (arc.enlarged start).1 (arc.enlarged start).2 (arc.halfChord start).x
      (arc.halfChord start).y ≤ 1 := by
    rw [hreach]
    exact min_le_left _ _
  have hoffset := offsetSize_square hx hy hpos hle
  rw [← hreach]
  refine ⟨reach_eq.symm, ?_, hpos⟩
  have hsquare : arc.chordOffset start * arc.chordOffset start =
      offsetSize (arc.enlarged start).1 (arc.enlarged start).2 (arc.halfChord start).x
        (arc.halfChord start).y * offsetSize (arc.enlarged start).1 (arc.enlarged start).2
          (arc.halfChord start).x (arc.halfChord start).y := by
    rw [chordOffset, offset_eq]
    split
    · exact neg_mul_neg _ _
    · rfl
  rw [hsquare, add_mul, one_mul, hoffset, add_sub_cancel]

theorem fromCenter_first (start : Point ℝ) (hrx : arc.rx ≠ 0) (hry : arc.ry ≠ 0) :
    arc.fromCenter start (arc.halfChord start).x (arc.halfChord start).y =
      ⟨(arc.unitChord start).x - arc.chordOffset start * (arc.unitChord start).y,
        (arc.unitChord start).y + arc.chordOffset start * (arc.unitChord start).x⟩ := by
  obtain ⟨hx, hy⟩ := enlarged_ne start hrx hry
  rw [Point.mk.injEq]
  exact ⟨sub_offset_div hx _ _ _, sub_neg_offset_div hy _ _ _⟩

theorem fromCenter_second (start : Point ℝ) (hrx : arc.rx ≠ 0) (hry : arc.ry ≠ 0) :
    arc.fromCenter start (-(arc.halfChord start).x) (-(arc.halfChord start).y) =
      ⟨-(arc.unitChord start).x - arc.chordOffset start * (arc.unitChord start).y,
        -(arc.unitChord start).y + arc.chordOffset start * (arc.unitChord start).x⟩ := by
  obtain ⟨hx, hy⟩ := enlarged_ne start hrx hry
  rw [Point.mk.injEq, unitChord, ← neg_div, ← neg_div]
  exact ⟨sub_offset_div hx _ _ _, sub_neg_offset_div hy _ _ _⟩

/-- Radii that more than reach have their centre off the chord, on the side that the flags ask for. -/
theorem chordOffset_of_ratio_lt (hne : start ≠ arc.stop) (hrx : arc.rx ≠ 0) (hry : arc.ry ≠ 0)
    (hratio : arc.ratio start < 1) :
    arc.chordOffset start ≠ 0 ∧ (0 ≤ arc.chordOffset start ↔ ¬ arc.large = arc.sweep) := by
  have hzero : arc.chordOffset start ≠ 0 := by
    intro h
    have hunit := (isChord hne hrx hry).unit
    rw [h, mul_zero, add_zero, one_mul, min_eq_right hratio.le] at hunit
    exact hratio.ne hunit
  refine ⟨hzero, ?_⟩
  rw [chordOffset, offset_eq] at hzero ⊢
  by_cases hflags : arc.large = arc.sweep
  · rw [if_pos hflags] at hzero ⊢
    refine iff_of_false ?_ (not_not.2 hflags)
    intro hle
    exact hzero (le_antisymm (neg_nonpos.2 offsetSize_nonneg) hle)
  · rw [if_neg hflags]
    exact iff_of_true offsetSize_nonneg hflags

/-- Radii that just reach have their centre in the middle of the chord. -/
theorem chordOffset_of_le_ratio (hne : start ≠ arc.stop) (hrx : arc.rx ≠ 0) (hry : arc.ry ≠ 0)
    (hratio : 1 ≤ arc.ratio start) : arc.chordOffset start = 0 := by
  have hunit := (isChord hne hrx hry).unit
  rw [min_eq_left hratio, mul_one, add_eq_left] at hunit
  exact mul_self_eq_zero.1 hunit

/-! ## The angles -/

/-- The second end of the arc as it is seen from the first. -/
noncomputable def apart (start : Point ℝ) (arc : Arc ℝ) : ℝ :=
  let half := arc.unitChord start
  let k := arc.chordOffset start
  directionFrom (half.x - k * half.y) (half.y + k * half.x) (-half.x - k * half.y)
    (-half.y + k * half.x)

theorem startAngle_eq (hrx : arc.rx ≠ 0) (hry : arc.ry ≠ 0) :
    (arc.ellipse start).startAngle =
      direction ((arc.unitChord start).x - arc.chordOffset start * (arc.unitChord start).y)
        ((arc.unitChord start).y + arc.chordOffset start * (arc.unitChord start).x) := by
  simp only [ellipse]
  rw [fromCenter_first start hrx hry]
  rfl

theorem deltaAngle_eq (hrx : arc.rx ≠ 0) (hry : arc.ry ≠ 0) :
    (arc.ellipse start).deltaAngle = turnAlong arc.sweep (arc.apart start) := by
  simp only [ellipse]
  rw [fromCenter_first start hrx hry, fromCenter_second start hrx hry, turned_eq]
  rfl

/-- The sense in which the arc runs is the one that is asked for. -/
theorem deltaAngle_pos_iff (hne : start ≠ arc.stop) (hrx : arc.rx ≠ 0) (hry : arc.ry ≠ 0) :
    (0 < (arc.ellipse start).deltaAngle ↔ arc.sweep = true) ∧
      (arc.ellipse start).deltaAngle ≠ 0 := by
  rw [deltaAngle_eq hrx hry]
  exact turnAlong_pos_iff (isChord hne hrx hry).directionFrom_ne_zero neg_pi_lt_direction
    direction_le_pi arc.sweep

/-- If the radii more than reach, there is a longer way and a shorter one, and the arc takes the one that
is asked for. -/
theorem pi_lt_abs_deltaAngle_iff (hne : start ≠ arc.stop) (hrx : arc.rx ≠ 0) (hry : arc.ry ≠ 0)
    (hratio : arc.ratio start < 1) :
    Real.pi < |(arc.ellipse start).deltaAngle| ↔ arc.large = true := by
  have hchord := isChord hne hrx hry
  obtain ⟨hoffset, hside⟩ := chordOffset_of_ratio_lt hne hrx hry hratio
  have hapart : 0 < arc.apart start ↔ ¬ arc.large = arc.sweep :=
    hchord.directionFrom_pos_iff.trans hside
  have hlong : Real.pi < |turnAlong arc.sweep (arc.apart start)| ↔
      (0 < arc.apart start ↔ arc.sweep = false) :=
    pi_lt_abs_turnAlong_iff hchord.directionFrom_ne_zero neg_pi_lt_direction
      (hchord.directionFrom_lt_pi hoffset) arc.sweep
  rw [deltaAngle_eq hrx hry, hlong, hapart]
  cases arc.large <;> cases arc.sweep <;> decide

/-- If they just reach, both ways are half a turn. -/
theorem abs_deltaAngle_eq_pi (hne : start ≠ arc.stop) (hrx : arc.rx ≠ 0) (hry : arc.ry ≠ 0)
    (hratio : 1 ≤ arc.ratio start) : |(arc.ellipse start).deltaAngle| = Real.pi := by
  have hapart : arc.apart start = Real.pi :=
    (isChord hne hrx hry).directionFrom_eq_pi (chordOffset_of_le_ratio hne hrx hry hratio)
  rw [deltaAngle_eq hrx hry, hapart, abs_turnAlong_pi]

/-! ## The points -/

end Arc

theorem Affine.rotateAround_apply (angle : ℝ) (pivot p : Point ℝ) :
    (Affine.rotateAround angle pivot).apply p =
      ⟨pivot.x + (Real.cos angle * (p.x - pivot.x) - Real.sin angle * (p.y - pivot.y)),
        pivot.y + (Real.sin angle * (p.x - pivot.x) + Real.cos angle * (p.y - pivot.y))⟩ := by
  change _ = (⟨pivot.x + (Scalar.cos angle * (p.x - pivot.x) - Scalar.sin angle * (p.y - pivot.y)),
    pivot.y + (Scalar.sin angle * (p.x - pivot.x) + Scalar.cos angle * (p.y - pivot.y))⟩ :
      CanvasPoint ℝ)
  simp only [rotateAround, translate, rotate, comp, apply, ofNat_eq, Nat.cast_zero, Nat.cast_one,
    CanvasPoint.mk.injEq]
  constructor <;> ring

namespace Arc

variable {start : Point ℝ} {arc : Arc ℝ}

/-- A point of the ellipse is where its frame puts the point that is seen at its angle. -/
theorem frame_apply (hrx : arc.rx ≠ 0) (hry : arc.ry ≠ 0) {angle x y : ℝ}
    (hcos : Real.cos angle = (arc.fromCenter start x y).x)
    (hsin : Real.sin angle = (arc.fromCenter start x y).y) :
    (Affine.rotateAround (arc.ellipse start).rotation (arc.ellipse start).center).apply
        ((arc.ellipse start).unrotatedPoint angle) =
      ⟨Real.cos arc.rotation * x - Real.sin arc.rotation * y + (arc.middle start).x,
        Real.sin arc.rotation * x + Real.cos arc.rotation * y + (arc.middle start).y⟩ := by
  obtain ⟨hx, hy⟩ := enlarged_ne start hrx hry
  have hfirst : (arc.enlarged start).1 * Real.cos angle = x - (arc.offCenter start).x := by
    rw [hcos]
    exact mul_div_cancel₀ _ hx
  have hsecond : (arc.enlarged start).2 * Real.sin angle = y - (arc.offCenter start).y := by
    rw [hsin]
    exact mul_div_cancel₀ _ hy
  have hpointx : ((arc.ellipse start).unrotatedPoint angle).x - (arc.ellipse start).center.x =
      x - (arc.offCenter start).x := (add_sub_cancel_left _ _).trans hfirst
  have hpointy : ((arc.ellipse start).unrotatedPoint angle).y - (arc.ellipse start).center.y =
      y - (arc.offCenter start).y := (add_sub_cancel_left _ _).trans hsecond
  have hcenterx : (arc.ellipse start).center.x = Real.cos arc.rotation * (arc.offCenter start).x -
      Real.sin arc.rotation * (arc.offCenter start).y + (arc.middle start).x := rfl
  have hcentery : (arc.ellipse start).center.y = Real.sin arc.rotation * (arc.offCenter start).x +
      Real.cos arc.rotation * (arc.offCenter start).y + (arc.middle start).y := rfl
  have hrotation : (arc.ellipse start).rotation = arc.rotation := rfl
  rw [Affine.rotateAround_apply, CanvasPoint.mk.injEq, hpointx, hpointy, hcenterx, hcentery,
    hrotation]
  constructor <;> ring

/-- The first end of the chord, put back from the frame of the ellipse. -/
theorem frame_start (start : Point ℝ) (arc : Arc ℝ) :
    Real.cos arc.rotation * (arc.halfChord start).x - Real.sin arc.rotation * (arc.halfChord start).y +
        (arc.middle start).x = start.x ∧
      Real.sin arc.rotation * (arc.halfChord start).x +
        Real.cos arc.rotation * (arc.halfChord start).y + (arc.middle start).y = start.y := by
  have hone := half_add_half
  set half := instScalar.ofDecimal 5 (-1)
  have hx : (arc.halfChord start).x = Real.cos arc.rotation * ((start.x - arc.stop.x) * half) +
      Real.sin arc.rotation * ((start.y - arc.stop.y) * half) := rfl
  have hy : (arc.halfChord start).y = -Real.sin arc.rotation * ((start.x - arc.stop.x) * half) +
      Real.cos arc.rotation * ((start.y - arc.stop.y) * half) := rfl
  have hmiddlex : (arc.middle start).x = (start.x + arc.stop.x) * half := rfl
  have hmiddley : (arc.middle start).y = (start.y + arc.stop.y) * half := rfl
  have htrig := Real.cos_sq_add_sin_sq arc.rotation
  rw [hx, hy, hmiddlex, hmiddley]
  constructor
  · linear_combination (start.x - arc.stop.x) * half * htrig + start.x * hone
  · linear_combination (start.y - arc.stop.y) * half * htrig + start.y * hone

theorem frame_stop (start : Point ℝ) (arc : Arc ℝ) :
    Real.cos arc.rotation * -(arc.halfChord start).x -
        Real.sin arc.rotation * -(arc.halfChord start).y + (arc.middle start).x = arc.stop.x ∧
      Real.sin arc.rotation * -(arc.halfChord start).x +
        Real.cos arc.rotation * -(arc.halfChord start).y + (arc.middle start).y = arc.stop.y := by
  obtain ⟨hx, hy⟩ := frame_start start arc
  have hone := half_add_half
  set half := instScalar.ofDecimal 5 (-1)
  have hmiddlex : (arc.middle start).x = (start.x + arc.stop.x) * half := rfl
  have hmiddley : (arc.middle start).y = (start.y + arc.stop.y) * half := rfl
  rw [hmiddlex] at hx ⊢
  rw [hmiddley] at hy ⊢
  constructor
  · linear_combination (start.x + arc.stop.x) * hone - hx
  · linear_combination (start.y + arc.stop.y) * hone - hy

theorem starts_at (hne : start ≠ arc.stop) (hrx : arc.rx ≠ 0) (hry : arc.ry ≠ 0) :
    (Affine.rotateAround (arc.ellipse start).rotation (arc.ellipse start).center).apply
        ((arc.ellipse start).unrotatedPoint (arc.ellipse start).startAngle) =
      ⟨start.x, start.y⟩ := by
  have hunit := (isChord hne hrx hry).first_unit
  have hcos : Real.cos (arc.ellipse start).startAngle =
      (arc.unitChord start).x - arc.chordOffset start * (arc.unitChord start).y := by
    rw [startAngle_eq hrx hry]
    exact cos_direction hunit
  have hsin : Real.sin (arc.ellipse start).startAngle =
      (arc.unitChord start).y + arc.chordOffset start * (arc.unitChord start).x := by
    rw [startAngle_eq hrx hry]
    exact sin_direction hunit
  have hpoint := fromCenter_first start hrx hry
  rw [frame_apply hrx hry (hcos.trans (congrArg Point.x hpoint).symm)
    (hsin.trans (congrArg Point.y hpoint).symm), (frame_start start arc).1, (frame_start start arc).2]

theorem ends_at (hne : start ≠ arc.stop) (hrx : arc.rx ≠ 0) (hry : arc.ry ≠ 0) :
    (Affine.rotateAround (arc.ellipse start).rotation (arc.ellipse start).center).apply
        ((arc.ellipse start).unrotatedPoint
          ((arc.ellipse start).startAngle + (arc.ellipse start).deltaAngle)) =
      ⟨arc.stop.x, arc.stop.y⟩ := by
  have hchord := isChord hne hrx hry
  have hcos : Real.cos ((arc.ellipse start).startAngle + (arc.ellipse start).deltaAngle) =
      -(arc.unitChord start).x - arc.chordOffset start * (arc.unitChord start).y := by
    rw [startAngle_eq hrx hry, deltaAngle_eq hrx hry, cos_add_turnAlong]
    exact cos_direction_add hchord.first_unit hchord.second_unit
  have hsin : Real.sin ((arc.ellipse start).startAngle + (arc.ellipse start).deltaAngle) =
      -(arc.unitChord start).y + arc.chordOffset start * (arc.unitChord start).x := by
    rw [startAngle_eq hrx hry, deltaAngle_eq hrx hry, sin_add_turnAlong]
    exact sin_direction_add hchord.first_unit hchord.second_unit
  have hpoint := fromCenter_second start hrx hry
  rw [frame_apply hrx hry (hcos.trans (congrArg Point.x hpoint).symm)
    (hsin.trans (congrArg Point.y hpoint).symm), (frame_stop start arc).1, (frame_stop start arc).2]

end Arc

/-- The last of the parameters is 1, and the others are the fractions below. -/
theorem fractions_eq {n : ℕ} (hn : 1 ≤ n) :
    (fractions n : List ℝ) = (List.range (n - 1)).map (fun i => ((i + 1 : ℕ) : ℝ) / n) ++ [1] := by
  obtain ⟨m, rfl⟩ := Nat.exists_eq_add_of_le' hn
  have hwhole : ((m + 1 : ℕ) : ℝ) / (m + 1 : ℕ) = 1 := div_self (Nat.cast_ne_zero.2 m.succ_ne_zero)
  simp only [fractions, List.range_succ, List.map_append, List.map_singleton, ofCount_eq, hwhole,
    Nat.add_sub_cancel]

theorem getLast?_fractions {n : ℕ} (hn : 1 ≤ n) : (fractions n : List ℝ).getLast? = some 1 := by
  rw [fractions_eq hn, List.getLast?_concat]

namespace Arc

variable {start : Point ℝ} {arc : Arc ℝ}

theorem getLast?_strokes (hne : start ≠ arc.stop) (hrx : arc.rx ≠ 0) (hry : arc.ry ≠ 0)
    (transform : Affine ℝ) {resolution : ℕ} (hresolution : 1 ≤ resolution) :
    (arc.strokes start transform resolution).getLast? = some (.draw (transform.apply arc.stop)) := by
  have hlast : (arc.ellipse start).deltaAngle * 1 = (arc.ellipse start).deltaAngle := mul_one _
  rw [strokes, shape_of_ne hne hrx hry]
  simp only [EllipticalArc.strokes, List.getLast?_map, getLast?_fractions hresolution,
    Option.map_some, hlast, Affine.apply_comp, EllipticalArc.frame, ends_at hne hrx hry]
  rfl

/-- An arc between different points with radii that are not zero is the part of an ellipse that starts
and ends where the arc does. The radii are enlarged by one factor, as far as it takes to reach. The arc
runs along growing angles if it is asked to sweep, and the longer way if it is asked for the large one
and there is a longer way. So the last of the strokes it is drawn with leads to its end. -/
theorem exists_shape_eq_elliptical (start : Point ℝ) (arc : Arc ℝ) (hne : start ≠ arc.stop)
    (hrx : arc.rx ≠ 0) (hry : arc.ry ≠ 0) :
    ∃ ellipse : EllipticalArc ℝ, arc.shape start = .elliptical ellipse ∧
      (Affine.rotateAround ellipse.rotation ellipse.center).apply
          (ellipse.unrotatedPoint ellipse.startAngle) = ⟨start.x, start.y⟩ ∧
      (Affine.rotateAround ellipse.rotation ellipse.center).apply
          (ellipse.unrotatedPoint (ellipse.startAngle + ellipse.deltaAngle)) =
        ⟨arc.stop.x, arc.stop.y⟩ ∧
      ellipse.rotation = arc.rotation ∧
      ellipse.rx = |arc.rx| * max 1 √(arc.ratio start) ∧
      ellipse.ry = |arc.ry| * max 1 √(arc.ratio start) ∧
      (0 < ellipse.deltaAngle ↔ arc.sweep = true) ∧ ellipse.deltaAngle ≠ 0 ∧
      (arc.ratio start < 1 → (Real.pi < |ellipse.deltaAngle| ↔ arc.large = true)) ∧
      (1 ≤ arc.ratio start → |ellipse.deltaAngle| = Real.pi) ∧
      ∀ (transform : Affine ℝ) (resolution : ℕ), 1 ≤ resolution →
        (arc.strokes start transform resolution).getLast? =
          some (.draw (transform.apply arc.stop)) := by
  obtain ⟨hsense, hturn⟩ := deltaAngle_pos_iff hne hrx hry
  exact ⟨arc.ellipse start, shape_of_ne hne hrx hry, starts_at hne hrx hry, ends_at hne hrx hry, rfl,
    congrArg Prod.fst enlarged_eq, congrArg Prod.snd enlarged_eq, hsense, hturn,
    pi_lt_abs_deltaAngle_iff hne hrx hry, abs_deltaAngle_eq_pi hne hrx hry,
    fun transform _ hresolution => getLast?_strokes hne hrx hry transform hresolution⟩

/-- The long way around a circle of which the chord spans a quarter. -/
theorem exists_shape_eq_elliptical_quarter :
    (⟨0, 0⟩ : Point ℝ) ≠ ⟨1, 1⟩ ∧ (1 : ℝ) ≠ 0 ∧
      ∃ ellipse : EllipticalArc ℝ,
        shape (⟨0, 0⟩ : Point ℝ) ⟨1, 1, 0, true, true, ⟨1, 1⟩⟩ = .elliptical ellipse ∧
        (Affine.rotateAround ellipse.rotation ellipse.center).apply
            (ellipse.unrotatedPoint ellipse.startAngle) = ⟨0, 0⟩ ∧
        (Affine.rotateAround ellipse.rotation ellipse.center).apply
            (ellipse.unrotatedPoint (ellipse.startAngle + ellipse.deltaAngle)) = ⟨1, 1⟩ ∧
        0 < ellipse.deltaAngle ∧ Real.pi < |ellipse.deltaAngle| := by
  have hends : (⟨0, 0⟩ : Point ℝ) ≠ ⟨1, 1⟩ := by
    rw [ne_eq, Point.mk.injEq, not_and]
    exact fun h => absurd h zero_ne_one
  obtain ⟨ellipse, hshape, hstart, hstop, -, -, -, hsense, -, hlong, -⟩ :=
    exists_shape_eq_elliptical (⟨0, 0⟩ : Point ℝ) ⟨1, 1, 0, true, true, ⟨1, 1⟩⟩ hends one_ne_zero
      one_ne_zero
  have hratio : ratio (⟨0, 0⟩ : Point ℝ) ⟨1, 1, 0, true, true, ⟨1, 1⟩⟩ < 1 := by
    have hone := half_add_half
    set half := instScalar.ofDecimal 5 (-1)
    have hsquare := halfChord_square 0 ((0 - 1) * half) ((0 - 1) * half)
    have hhalf : half * half + half * half < 1 := by
      rw [← mul_add, hone, mul_one]
      exact half_lt_one
    rw [ratio_eq, reach, abs_one, mul_one, div_one, div_one]
    refine lt_of_eq_of_lt (hsquare.trans ?_) hhalf
    ring
  exact ⟨hends, one_ne_zero, ellipse, hshape, hstart, hstop, hsense.2 rfl, (hlong hratio).2 rfl⟩

end Arc

end PenPlot
