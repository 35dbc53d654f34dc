import PenPlot.Proofs.Counting
import PenPlot.Proofs.Loops

/-!
# Closed shapes

Over exact arithmetic rectangles, circles, ellipses and polygons are drawn as loops: rectangles between
their sides, circles and ellipses on themselves.

The corners of a rectangle are quarters of four ellipses, each with its own centre and angles. Both radii
are limited to half of the shorter side, so the straight parts between the corners are not turned around,
and no ellipse leaves the rectangle. A quarter starts where the straight part before it ends, which is the
sine and the cosine of the multiples of a quarter turn.
-/

namespace PenPlot

/-! ## What is read -/

namespace Outline

open Scalar

variable {α : Type} [Scalar α] {attributes : List Char}

/-- The rectangle with radii that are limited to half of the shorter side, if any are left. -/
def limitedRectangle (x y width height : α) (radii : α × α) : List (Edge α) :=
  let limit := lesser width height / 2
  let rx := lesser radii.1 limit
  let ry := lesser radii.2 limit
  if rx == 0 || ry == 0 then rectangle x y width height
  else roundedRectangle x y width height rx ry

theorem result_rect {width height : α} {radii : α × α}
    (hwidth : (Reading.nonNegative .rect attributes "width").result = .ok width)
    (hheight : (Reading.nonNegative .rect attributes "height").result = .ok height)
    (hsize : (width == 0 || height == 0) = false)
    (hradii : (cornerRadii attributes).result = .ok radii) :
    (rect attributes).result = .ok (limitedRectangle (lengthOf attributes "x")
      (lengthOf attributes "y") width height radii) := by
  refine Reading.result_bind_eq_ok.2 ⟨lengthOf attributes "x", rfl, ?_⟩
  refine Reading.result_bind_eq_ok.2 ⟨lengthOf attributes "y", rfl, ?_⟩
  refine Reading.result_bind_eq_ok.2 ⟨width, hwidth, ?_⟩
  refine Reading.result_bind_eq_ok.2 ⟨height, hheight, ?_⟩
  rw [hsize]
  refine Reading.result_bind_eq_ok.2 ⟨radii, hradii, ?_⟩
  simp only [limitedRectangle]
  split <;> rfl

theorem result_ellipse {rx ry : α} (hsize : (rx == 0 || ry == 0) = false) :
    (ellipse rx ry attributes).result =
      .ok (elliptical ⟨lengthOf attributes "cx", lengthOf attributes "cy"⟩ rx ry) := by
  rw [ellipse, hsize]
  rfl

theorem result_poly {kind : ShapeKind} {closed : Bool} {values : List α}
    (hread : readNumbers ((attribute? "points".toList attributes).getD []) = .ok values)
    (heven : values.length % 2 = 0) :
    (poly kind closed attributes).result = .ok (polygonal closed (pointsOf values)) := by
  refine Reading.result_bind_eq_ok.2 ⟨values, ?_, ?_⟩
  · rw [hread]
    rfl
  · rw [if_pos heven]
    rfl

end Outline

open Exact

theorem Reading.result_nonNegative (kind : ShapeKind) {attributes : List Char} {name : String}
    (h : 0 ≤ (lengthOf attributes name : ℝ)) :
    (Reading.nonNegative kind attributes name).result = .ok (lengthOf attributes name : ℝ) := by
  have hneg : ¬ (lengthOf attributes name : ℝ) < ((0 : ℕ) : ℝ) := by
    rw [Nat.cast_zero]
    exact h.not_gt
  refine result_bind_eq_ok.2 ⟨lengthOf attributes name, rfl, ?_⟩
  rw [ofNat_eq, if_neg hneg]
  rfl

/-! ## Points of an ellipse -/

theorem quarterTurn_eq : (Scalar.quarterTurn : ℝ) = Real.pi / 2 := by
  have htwo := ofNat_eq 2
  rw [Nat.cast_ofNat] at htwo
  exact congrArg (Real.pi / ·) htwo

section

variable (center : Point ℝ) (rx ry : ℝ)

theorem ellipsePoint_eq {angle c s : ℝ} (hcos : Real.cos angle = c) (hsin : Real.sin angle = s) :
    ellipsePoint center rx ry angle = ⟨center.x + rx * c, center.y + ry * s⟩ := by
  rw [← hcos, ← hsin]
  rfl

/-- The rightmost point. -/
theorem ellipsePoint_zero : ellipsePoint center rx ry 0 = ⟨center.x + rx, center.y⟩ := by
  rw [ellipsePoint_eq center rx ry Real.cos_zero Real.sin_zero, mul_one, mul_zero, add_zero]

theorem ellipsePoint_neg_turn :
    ellipsePoint center rx ry (-Scalar.turn) = ⟨center.x + rx, center.y⟩ := by
  have hcos : Real.cos (-(2 * Real.pi)) = 1 := by rw [Real.cos_neg, Real.cos_two_pi]
  have hsin : Real.sin (-(2 * Real.pi)) = 0 := by rw [Real.sin_neg, Real.sin_two_pi, neg_zero]
  rw [turn_eq, ellipsePoint_eq center rx ry hcos hsin, mul_one, mul_zero, add_zero]

/-- The point with the greatest ordinate. -/
theorem ellipsePoint_quarterTurn :
    ellipsePoint center rx ry Scalar.quarterTurn = ⟨center.x, center.y + ry⟩ := by
  rw [quarterTurn_eq, ellipsePoint_eq center rx ry Real.cos_pi_div_two Real.sin_pi_div_two, mul_one,
    mul_zero, add_zero]

/-- The leftmost point. -/
theorem ellipsePoint_pi : ellipsePoint center rx ry Scalar.pi = ⟨center.x - rx, center.y⟩ := by
  have hpoint := ellipsePoint_eq center rx ry Real.cos_pi Real.sin_pi
  rwa [mul_neg_one, mul_zero, add_zero, ← sub_eq_add_neg] at hpoint

/-- The point with the least ordinate. -/
theorem ellipsePoint_neg_quarterTurn :
    ellipsePoint center rx ry (-Scalar.quarterTurn) = ⟨center.x, center.y - ry⟩ := by
  have hcos : Real.cos (-(Real.pi / 2)) = 0 := by rw [Real.cos_neg, Real.cos_pi_div_two]
  have hsin : Real.sin (-(Real.pi / 2)) = -1 := by rw [Real.sin_neg, Real.sin_pi_div_two]
  rw [quarterTurn_eq, ellipsePoint_eq center rx ry hcos hsin, mul_neg_one, mul_zero, add_zero,
    sub_eq_add_neg]

theorem ellipsePoint_three_quarterTurn :
    ellipsePoint center rx ry (3 * Scalar.quarterTurn) = ⟨center.x, center.y - ry⟩ := by
  have hturned : 3 * (Real.pi / 2) = -(Real.pi / 2) + 2 * Real.pi := by ring
  have hcos : Real.cos (3 * (Real.pi / 2)) = Real.cos (-(Real.pi / 2)) := by
    rw [hturned, Real.cos_add_two_pi]
  have hsin : Real.sin (3 * (Real.pi / 2)) = Real.sin (-(Real.pi / 2)) := by
    rw [hturned, Real.sin_add_two_pi]
  rw [← ellipsePoint_neg_quarterTurn, quarterTurn_eq]
  exact ellipsePoint_eq center rx ry hcos hsin

end

/-! ## Where shapes lie -/

/-- The point lies in the rectangle with a corner at `(x, y)`, sides included. -/
def InRectangle (x y width height : ℝ) (p : Point ℝ) : Prop :=
  (x ≤ p.x ∧ p.x ≤ x + width) ∧ y ≤ p.y ∧ p.y ≤ y + height

/-- The point lies on the ellipse. -/
def OnEllipse (center : Point ℝ) (rx ry : ℝ) (p : Point ℝ) : Prop :=
  ((p.x - center.x) / rx) ^ 2 + ((p.y - center.y) / ry) ^ 2 = 1

theorem onEllipse_ellipsePoint (center : Point ℝ) {rx ry : ℝ} (hrx : rx ≠ 0) (hry : ry ≠ 0)
    (angle : ℝ) : OnEllipse center rx ry (ellipsePoint center rx ry angle) := by
  rw [ellipsePoint_eq center rx ry rfl rfl, OnEllipse]
  simp only [add_sub_cancel_left, mul_div_cancel_left₀ _ hrx, mul_div_cancel_left₀ _ hry]
  exact Real.cos_sq_add_sin_sq angle

/-- What lies on the way from one number to another lies between the same bounds as they. -/
theorem bounds_of_between {low high s t u : ℝ} (hs : low ≤ s ∧ s ≤ high)
    (ht : low ≤ t ∧ t ≤ high) (hu : 0 ≤ u) (hle : u ≤ 1) :
    low ≤ s + (t - s) * u ∧ s + (t - s) * u ≤ high := by
  have hmix : s + (t - s) * u = (1 - u) * s + u * t := by ring
  have hlow : low = (1 - u) * low + u * low := by ring
  have hhigh : high = (1 - u) * high + u * high := by ring
  have hrest : 0 ≤ 1 - u := sub_nonneg.2 hle
  rw [hmix]
  constructor
  · rw [hlow]
    exact add_le_add (mul_le_mul_of_nonneg_left hs.1 hrest) (mul_le_mul_of_nonneg_left ht.1 hu)
  · rw [hhigh]
    exact add_le_add (mul_le_mul_of_nonneg_left hs.2 hrest) (mul_le_mul_of_nonneg_left ht.2 hu)

theorem isConvexRegion_inRectangle (x y width height : ℝ) :
    IsConvexRegion (InRectangle x y width height) := by
  intro p q t hp hq ht hle
  exact ⟨bounds_of_between hp.1 hq.1 ht hle, bounds_of_between hp.2 hq.2 ht hle⟩

/-- No point of an ellipse is farther from its centre, along an axis, than the radius. -/
theorem inRectangle_ellipsePoint {x y width height : ℝ} {center : Point ℝ} {rx ry : ℝ}
    (hrx : 0 ≤ rx) (hry : 0 ≤ ry) (hx : x ≤ center.x - rx ∧ center.x + rx ≤ x + width)
    (hy : y ≤ center.y - ry ∧ center.y + ry ≤ y + height) (angle : ℝ) :
    InRectangle x y width height (ellipsePoint center rx ry angle) := by
  have hright := mul_le_mul_of_nonneg_left (Real.cos_le_one angle) hrx
  have hleft := mul_le_mul_of_nonneg_left (Real.neg_one_le_cos angle) hrx
  have hbottom := mul_le_mul_of_nonneg_left (Real.sin_le_one angle) hry
  have htop := mul_le_mul_of_nonneg_left (Real.neg_one_le_sin angle) hry
  rw [ellipsePoint_eq center rx ry rfl rfl]
  refine ⟨⟨?_, ?_⟩, ?_, ?_⟩ <;> simp only <;> linarith

/-! ## Outlines -/

namespace Outline

variable {flattener : Flattener}

theorem isLoopIn_rectangle (hresolution : 1 ≤ flattener.resolution) {x y width height : ℝ}
    (hwidth : 0 ≤ width) (hheight : 0 ≤ height) :
    IsLoopIn flattener (InRectangle x y width height) (rectangle x y width height) := by
  have hx : x ≤ x + width := le_add_of_nonneg_right hwidth
  have hy : y ≤ y + height := le_add_of_nonneg_right hheight
  have hfirst : InRectangle x y width height ⟨x + width, y⟩ := ⟨⟨hx, le_rfl⟩, le_rfl, hy⟩
  have hstays : ∀ edge ∈ (rectangle x y width height).tail,
      edge.StaysIn (InRectangle x y width height) := by
    simp only [rectangle, List.tail_cons, List.forall_mem_cons]
    exact ⟨⟨⟨le_rfl, hx⟩, le_rfl, hy⟩, ⟨⟨le_rfl, hx⟩, hy, le_rfl⟩, ⟨⟨hx, le_rfl⟩, hy, le_rfl⟩,
      hfirst, List.forall_mem_nil _⟩
  exact isLoopIn_of_isContinuous hresolution (fun edge hedge => (hstays edge hedge).isPlain)
    ⟨trivial, trivial, trivial, trivial, trivial⟩ rfl hfirst
    (forall_mem_points (isConvexRegion_inRectangle x y width height) hfirst hstays)

/-- The four quarters start where the straight parts before them end, whatever the radii. -/
theorem isContinuous_roundedRectangle (x y width height rx ry : ℝ) :
    IsContinuous ⟨x + width - rx, y⟩ (roundedRectangle x y width height rx ry).tail := by
  simp only [roundedRectangle, List.tail_cons, IsContinuous, Edge.BeginsAt, Edge.stop, true_and,
    and_true, ofNat_eq, Nat.cast_ofNat, Nat.cast_zero, ellipsePoint_three_quarterTurn,
    ellipsePoint_pi, ellipsePoint_quarterTurn, ellipsePoint_zero, Point.mk.injEq]
  exact ⟨add_sub_cancel_right y ry, add_sub_cancel_right x rx, sub_add_cancel _ _,
    sub_add_cancel _ _⟩

theorem isLoopIn_roundedRectangle (hresolution : 1 ≤ flattener.resolution)
    {x y width height rx ry : ℝ} (hrx : 0 ≤ rx) (hry : 0 ≤ ry) (hwidth : 2 * rx ≤ width)
    (hheight : 2 * ry ≤ height) :
    IsLoopIn flattener (InRectangle x y width height)
      (roundedRectangle x y width height rx ry) := by
  have hacross : x + rx ≤ x + width - rx := by linarith
  have hdown : y + ry ≤ y + height - ry := by linarith
  have hpoint : ∀ {s t : ℝ}, x ≤ s → s ≤ x + width → y ≤ t → t ≤ y + height →
      InRectangle x y width height ⟨s, t⟩ := fun hs hs' ht ht' => ⟨⟨hs, hs'⟩, ht, ht'⟩
  have hcorner : ∀ {s t : ℝ}, x + rx ≤ s → s ≤ x + width - rx → y + ry ≤ t →
      t ≤ y + height - ry →
      ∀ angle, InRectangle x y width height (ellipsePoint ⟨s, t⟩ rx ry angle) := by
    intro s t hs hs' ht ht'
    exact inRectangle_ellipsePoint hrx hry ⟨le_sub_iff_add_le.2 hs, le_sub_iff_add_le.1 hs'⟩
      ⟨le_sub_iff_add_le.2 ht, le_sub_iff_add_le.1 ht'⟩
  have hfirst : InRectangle x y width height ⟨x + width - rx, y⟩ := by
    apply hpoint <;> linarith
  have hstays : ∀ edge ∈ (roundedRectangle x y width height rx ry).tail,
      edge.StaysIn (InRectangle x y width height) := by
    simp only [roundedRectangle, List.tail_cons, List.forall_mem_cons]
    refine ⟨?_, hcorner le_rfl hacross le_rfl hdown, ?_, hcorner le_rfl hacross hdown le_rfl, ?_,
      hcorner hacross le_rfl hdown le_rfl, ?_, hcorner hacross le_rfl le_rfl hdown,
      List.forall_mem_nil _⟩
    all_goals apply hpoint <;> linarith
  refine isLoopIn_of_isContinuous hresolution (fun edge hedge => (hstays edge hedge).isPlain)
    (isContinuous_roundedRectangle x y width height rx ry) ?_ hfirst
    (forall_mem_points (isConvexRegion_inRectangle x y width height) hfirst hstays)
  show some (ellipsePoint _ rx ry (-Scalar.quarterTurn)) = _
  rw [ellipsePoint_neg_quarterTurn, add_sub_cancel_right]

theorem lesser_eq_min (s t : ℝ) : Scalar.lesser s t = min s t := by
  simp only [Scalar.lesser, le_refl, if_true]
  exact (min_def s t).symm

theorem isLoopIn_limitedRectangle (hresolution : 1 ≤ flattener.resolution)
    {x y width height : ℝ} (hwidth : 0 < width) (hheight : 0 < height) {radii : ℝ × ℝ}
    (hrx : 0 ≤ radii.1) (hry : 0 ≤ radii.2) :
    IsLoopIn flattener (InRectangle x y width height)
      (limitedRectangle x y width height radii) := by
  have hlimit : 0 ≤ min width height / 2 := by
    have hmin := lt_min hwidth hheight
    linarith
  -- Twice a limited radius is at most the shorter side.
  have htwice : ∀ r : ℝ, 2 * min r (min width height / 2) ≤ min width height := by
    intro r
    have hle := min_le_right r (min width height / 2)
    linarith
  simp only [limitedRectangle, lesser_eq_min, ofNat_eq, Nat.cast_ofNat]
  split
  · exact isLoopIn_rectangle hresolution hwidth.le hheight.le
  · exact isLoopIn_roundedRectangle hresolution (le_min hrx hlimit) (le_min hry hlimit)
      ((htwice _).trans (min_le_left _ _)) ((htwice _).trans (min_le_right _ _))

theorem isLoopIn_elliptical (hresolution : 1 ≤ flattener.resolution) (center : Point ℝ)
    {rx ry : ℝ} (hrx : rx ≠ 0) (hry : ry ≠ 0) :
    IsLoopIn flattener (OnEllipse center rx ry) (elliptical center rx ry) := by
  have hpoint := onEllipse_ellipsePoint center hrx hry
  have hfirst : OnEllipse center rx ry ⟨center.x + rx, center.y⟩ := by
    rw [← ellipsePoint_zero]
    exact hpoint 0
  refine isLoopIn_of_isContinuous hresolution ?_ ?_ ?_ hfirst ?_
  · intro edge hedge
    obtain rfl := List.mem_singleton.1 hedge
    trivial
  · exact ⟨ellipsePoint_zero center rx ry, trivial⟩
  · exact congrArg some (ellipsePoint_neg_turn center rx ry)
  · intro p hp
    rw [points, points, List.append_nil] at hp
    obtain ⟨angle, rfl⟩ := mem_ellipticalRun hp
    exact hpoint angle

theorem isContinuous_map_line (start : Point ℝ) (points : List (Point ℝ)) :
    IsContinuous start (points.map .line) := by
  induction points generalizing start with
  | nil => trivial
  | cons p points ih => exact ⟨trivial, ih p⟩

theorem isLoopIn_polygonal (hresolution : 1 ≤ flattener.resolution) (first : Point ℝ)
    (rest : List (Point ℝ)) :
    IsLoopIn flattener (fun _ => True) (polygonal true (first :: rest)) := by
  have hedges : polygonal true (first :: rest) = .move first :: (rest ++ [first]).map .line := by
    simp [polygonal]
  rw [hedges]
  refine isLoopIn_of_isContinuous hresolution ?_ (isContinuous_map_line first _) ?_ trivial
    fun _ _ => trivial
  · intro edge hedge
    obtain ⟨p, -, rfl⟩ := List.mem_map.1 hedge
    trivial
  · rw [List.getLast?_map, List.getLast?_concat]
    rfl

end Outline

/-! ## Shapes -/

/-- The attributes give a closed shape an outline: a rectangle sides and no negative radius, a circle or
an ellipse radii, and a polygon points. -/
def GivesLoop (attributes : List Char) : ShapeKind → Prop
  | .rect =>
    0 < (lengthOf attributes "width" : ℝ) ∧ 0 < (lengthOf attributes "height" : ℝ) ∧
      0 ≤ (lengthOf attributes "rx" : ℝ) ∧ 0 ≤ (lengthOf attributes "ry" : ℝ)
  | .circle => 0 < (lengthOf attributes "r" : ℝ)
  | .ellipse => 0 < (lengthOf attributes "rx" : ℝ) ∧ 0 < (lengthOf attributes "ry" : ℝ)
  | .polygon => ∃ values : List ℝ,
    readNumbers ((attribute? "points".toList attributes).getD []) = .ok values ∧
      values.length % 2 = 0 ∧ values ≠ []
  | _ => False

/-- Where a closed shape lies: a rectangle between its sides, a circle or an ellipse on itself. -/
def loopRegion (attributes : List Char) : ShapeKind → Point ℝ → Prop
  | .rect =>
    InRectangle (lengthOf attributes "x") (lengthOf attributes "y") (lengthOf attributes "width")
      (lengthOf attributes "height")
  | .circle =>
    OnEllipse ⟨lengthOf attributes "cx", lengthOf attributes "cy"⟩ (lengthOf attributes "r")
      (lengthOf attributes "r")
  | .ellipse =>
    OnEllipse ⟨lengthOf attributes "cx", lengthOf attributes "cy"⟩ (lengthOf attributes "rx")
      (lengthOf attributes "ry")
  | _ => fun _ => True

namespace Outline

variable {flattener : Flattener} {attributes : List Char}

/-- A radius that is not given is zero, or the one that is. -/
theorem exists_cornerRadii (hrx : 0 ≤ (lengthOf attributes "rx" : ℝ))
    (hry : 0 ≤ (lengthOf attributes "ry" : ℝ)) :
    ∃ radii : ℝ × ℝ, (cornerRadii attributes).result = .ok radii ∧ 0 ≤ radii.1 ∧ 0 ≤ radii.2 := by
  have hreadX := Reading.result_nonNegative .rect hrx
  have hreadY := Reading.result_nonNegative .rect hry
  unfold cornerRadii
  cases attribute? "rx".toList attributes with
  | none =>
    cases attribute? "ry".toList attributes with
    | none => exact ⟨(0, 0), by simp, le_rfl, le_rfl⟩
    | some _ => exact ⟨(_, _), Reading.result_bind_eq_ok.2 ⟨_, hreadY, rfl⟩, hry, hry⟩
  | some _ =>
    cases attribute? "ry".toList attributes with
    | none => exact ⟨(_, _), Reading.result_bind_eq_ok.2 ⟨_, hreadX, rfl⟩, hrx, hrx⟩
    | some _ =>
      refine ⟨(_, _), Reading.result_bind_eq_ok.2 ⟨_, hreadX, ?_⟩, hrx, hry⟩
      exact Reading.result_bind_eq_ok.2 ⟨_, hreadY, rfl⟩

/-- Attributes that give a closed shape an outline are read without a fault, as that of a loop. -/
theorem exists_loop (hresolution : 1 ≤ flattener.resolution) {kind : ShapeKind}
    (h : GivesLoop attributes kind) :
    ∃ outline, (ofShape (α := ℝ) kind attributes).result = .ok outline ∧
      IsLoopIn flattener (loopRegion attributes kind) outline := by
  cases kind with
  | rect =>
    obtain ⟨hwidth, hheight, hrx, hry⟩ := h
    obtain ⟨radii, hradii, hradiusX, hradiusY⟩ := exists_cornerRadii hrx hry
    refine ⟨_, ?_, isLoopIn_limitedRectangle hresolution hwidth hheight hradiusX hradiusY⟩
    exact result_rect (Reading.result_nonNegative .rect hwidth.le)
      (Reading.result_nonNegative .rect hheight.le) (by simp [hwidth.ne', hheight.ne']) hradii
  | circle =>
    have hr : 0 < (lengthOf attributes "r" : ℝ) := h
    refine ⟨_, ?_, isLoopIn_elliptical hresolution _ hr.ne' hr.ne'⟩
    exact Reading.result_bind_eq_ok.2 ⟨_, Reading.result_nonNegative .circle hr.le,
      result_ellipse (by simp [hr.ne'])⟩
  | ellipse =>
    obtain ⟨hrx, hry⟩ := h
    refine ⟨_, ?_, isLoopIn_elliptical hresolution _ hrx.ne' hry.ne'⟩
    refine Reading.result_bind_eq_ok.2 ⟨_, Reading.result_nonNegative .ellipse hrx.le, ?_⟩
    exact Reading.result_bind_eq_ok.2 ⟨_, Reading.result_nonNegative .ellipse hry.le,
      result_ellipse (by simp [hrx.ne', hry.ne'])⟩
  | polygon =>
    obtain ⟨values, hread, heven, hne⟩ := h
    have houtline : (ofShape (α := ℝ) .polygon attributes).result =
        .ok (polygonal true (pointsOf values)) := result_poly hread heven
    match values, heven, hne with
    | x :: y :: rest, _, _ =>
      exact ⟨_, houtline, isLoopIn_polygonal hresolution ⟨x, y⟩ (pointsOf rest)⟩
  | _ => exact h.elim

end Outline

namespace Flattener

/-- A rectangle with sides and without a negative radius, a circle or an ellipse with radii and a polygon
with points are drawn without a fault, as closed lines. Before they are mapped, the points of a rectangle
lie between its sides and those of an ellipse on it, the last point is the first, and each corner starts
at the point that is drawn to before. -/
theorem recorded_closed {flattener : Flattener} (hresolution : 1 ≤ flattener.resolution)
    {kind : ShapeKind} {attributes : List Char} (h : GivesLoop attributes kind) :
    ∃ outline, (Outline.ofShape (α := ℝ) kind attributes).result = .ok outline ∧
      (∀ transform, flattener.recorded kind attributes transform =
        (.ok (), flattener.flatten transform outline)) ∧
      Outline.IsLoopIn flattener (loopRegion attributes kind) outline := by
  obtain ⟨outline, houtline, hloop⟩ := Outline.exists_loop hresolution h
  refine ⟨outline, houtline, ?_, hloop⟩
  intro transform
  rw [recorded_eq, houtline]

/-- A rectangle of which one radius is too large. -/
theorem recorded_closed_rounded :
    1 ≤ 10 ∧ GivesLoop "width='8' height='6' rx='5' ry='1'".toList .rect ∧
      ∃ outline, (Outline.ofShape (α := ℝ) .rect
          "width='8' height='6' rx='5' ry='1'".toList).result = .ok outline ∧
        (∀ transform,
          recorded ⟨10, true⟩ .rect "width='8' height='6' rx='5' ry='1'".toList transform =
            (.ok (), flatten ⟨10, true⟩ transform outline)) ∧
        Outline.IsLoopIn ⟨10, true⟩
          (loopRegion "width='8' height='6' rx='5' ry='1'".toList .rect) outline := by
  have hten : 1 ≤ 10 := by decide
  have hcount : ∀ n : ℕ, 0 < n → 0 < (Scalar.ofCount n : ℝ) := by
    intro n hn
    rw [ofCount_eq]
    exact Nat.cast_pos.2 hn
  have hgives : GivesLoop "width='8' height='6' rx='5' ry='1'".toList .rect :=
    ⟨hcount 8 (by decide), hcount 6 (by decide), (hcount 5 (by decide)).le,
      (hcount 1 (by decide)).le⟩
  exact ⟨hten, hgives, recorded_closed hten hgives⟩

end Flattener

end PenPlot
