import PenPlot.Proofs.Subdivision

/-!
# Loops

The outlines of rectangles, ellipses and polygons are a move, and then lines, corners and loops. Of those
edges it can be said in the coordinates of the document to which points the strokes lead: the transform
maps the points one by one.

A corner is drawn by the angles of its ellipse, wherever the pen is. That it starts there is a property of
the outline, `IsContinuous`: at its first angle the ellipse of a corner runs through the end of the edge
before it. An outline that is continuous, ends where it begins and stays in a region is drawn as a loop in
that region.
-/

namespace PenPlot

open Exact

/-! ## Points of edges -/

namespace Edge

variable {flattener : Flattener}

/-- Lines, corners and loops, of which all outlines but those of paths are made behind the first move. -/
def IsPlain : Edge ℝ → Prop
  | line _ | corner _ _ _ _ _ | loop _ _ _ => True
  | _ => False

/-- The points that the strokes along a plain edge lead to. -/
noncomputable def points (flattener : Flattener) (start : Point ℝ) : Edge ℝ → List (Point ℝ)
  | line stop => linePoints flattener start stop
  | corner center rx ry first last => cornerPoints flattener center rx ry first last
  | loop center rx ry => loopPoints flattener center rx ry
  | _ => []

theorem commands_of_isPlain (transform : Affine ℝ) (start : Point ℝ) {edge : Edge ℝ}
    (h : edge.IsPlain) :
    edge.commands flattener transform start = strokesTo transform (edge.points flattener start) := by
  cases edge with
  | line stop => rfl
  | corner center rx ry first last => rfl
  | loop center rx ry => rfl
  | _ => exact h.elim

theorem getLast?_points (hresolution : 1 ≤ flattener.resolution) (start : Point ℝ) {edge : Edge ℝ}
    (h : edge.IsPlain) : (edge.points flattener start).getLast? = some edge.stop := by
  cases edge with
  | line stop =>
    simp only [points, linePoints]
    split
    · rw [List.getLast?_map, getLast?_fractions hresolution, Option.map_some, linearPoint_one]
      rfl
    · rfl
  | corner center rx ry first last =>
    have hsteps : 1 ≤ flattener.cornerSteps := le_max_right _ _
    exact getLast?_ellipticalRun center rx ry first last hsteps
  | loop center rx ry => exact getLast?_ellipticalRun center rx ry _ _ hresolution
  | _ => exact h.elim

/-- The edge starts at a point by its own account. Only corners and loops have one. -/
def BeginsAt (start : Point ℝ) : Edge ℝ → Prop
  | corner center rx ry first _ => ellipsePoint center rx ry first = start
  | loop center rx ry => ellipsePoint center rx ry 0 = start
  | _ => True

end Edge

namespace Outline

variable {flattener : Flattener}

/-- The points that the strokes along plain edges lead to, one behind the other. -/
noncomputable def points (flattener : Flattener) : Point ℝ → List (Edge ℝ) → List (Point ℝ)
  | _, [] => []
  | start, edge :: edges => edge.points flattener start ++ points flattener edge.stop edges

theorem flattenFrom_eq_strokesTo (hresolution : 1 ≤ flattener.resolution) (transform : Affine ℝ)
    (start : Point ℝ) {edges : List (Edge ℝ)} (h : ∀ edge ∈ edges, edge.IsPlain) :
    flattener.flattenFrom transform start edges =
      strokesTo transform (points flattener start edges) := by
  induction edges generalizing start with
  | nil => rfl
  | cons edge edges ih =>
    obtain ⟨hedge, hedges⟩ := List.forall_mem_cons.1 h
    rw [Flattener.flattenFrom, Edge.commands_of_isPlain transform start hedge,
      Edge.target_eq_stop hresolution, ih edge.stop hedges, points, strokesTo, strokesTo, strokesTo,
      List.map_append]

/-- The strokes end where the last edge does. -/
theorem getLast?_points (hresolution : 1 ≤ flattener.resolution) (start : Point ℝ)
    {edges : List (Edge ℝ)} (h : ∀ edge ∈ edges, edge.IsPlain) :
    (points flattener start edges).getLast? = edges.getLast?.map Edge.stop := by
  induction edges generalizing start with
  | nil => rfl
  | cons edge edges ih =>
    obtain ⟨hedge, hedges⟩ := List.forall_mem_cons.1 h
    rw [points, List.getLast?_append, ih edge.stop hedges,
      Edge.getLast?_points hresolution start hedge, List.getLast?_cons]
    cases edges.getLast? <;> rfl

/-! ## Continuity -/

/-- Each edge starts where the edge before it ends, and the first at a point. -/
def IsContinuous : Point ℝ → List (Edge ℝ) → Prop
  | _, [] => True
  | start, edge :: edges => edge.BeginsAt start ∧ IsContinuous edge.stop edges

theorem IsContinuous.beginsAt {start : Point ℝ} {before : List (Edge ℝ)} {edge : Edge ℝ}
    {after : List (Edge ℝ)} (h : IsContinuous start (before ++ edge :: after)) :
    edge.BeginsAt ((before.getLast?.map Edge.stop).getD start) := by
  induction before generalizing start with
  | nil => exact h.1
  | cons first before ih =>
    rw [Edge.stop_getLast?_cons]
    exact ih h.2

/-! ## Regions -/

end Outline

theorem mem_fractions {n : ℕ} {t : ℝ} (h : t ∈ (fractions n : List ℝ)) : 0 ≤ t ∧ t ≤ 1 := by
  obtain ⟨i, hi, rfl⟩ := List.mem_map.1 h
  have hle : ((i + 1 : ℕ) : ℝ) ≤ n := Nat.cast_le.2 (List.mem_range.1 hi)
  rw [ofCount_eq, ofCount_eq]
  exact ⟨by positivity, div_le_one_of_le₀ hle (Nat.cast_nonneg n)⟩

theorem mem_ellipticalRun {center : Point ℝ} {rx ry first last : ℝ} {steps : ℕ} {p : Point ℝ}
    (h : p ∈ ellipticalRun center rx ry first last steps) :
    ∃ angle, p = ellipsePoint center rx ry angle := by
  obtain ⟨t, -, rfl⟩ := List.mem_map.1 h
  exact ⟨_, rfl⟩

/-- The edge is plain and stays in a region, in which straight lines between points of it stay. -/
def Edge.StaysIn (region : Point ℝ → Prop) : Edge ℝ → Prop
  | .line stop => region stop
  | .corner center rx ry _ _ | .loop center rx ry => ∀ angle, region (ellipsePoint center rx ry angle)
  | _ => False

/-- A straight line between points of the region stays in it. -/
def IsConvexRegion (region : Point ℝ → Prop) : Prop :=
  ∀ p q : Point ℝ, ∀ t : ℝ, region p → region q → 0 ≤ t → t ≤ 1 → region (linearPoint p q t)

namespace Edge

variable {flattener : Flattener} {region : Point ℝ → Prop} {edge : Edge ℝ}

theorem StaysIn.isPlain (h : edge.StaysIn region) : edge.IsPlain := by
  cases edge with
  | line stop => trivial
  | corner center rx ry first last => trivial
  | loop center rx ry => trivial
  | _ => exact h.elim

theorem StaysIn.stop (h : edge.StaysIn region) : region edge.stop := by
  cases edge with
  | line stop => exact h
  | corner center rx ry first last => exact h last
  | loop center rx ry => exact h _
  | _ => exact h.elim

theorem StaysIn.points (hconvex : IsConvexRegion region) {start : Point ℝ} (hstart : region start)
    (h : edge.StaysIn region) : ∀ p ∈ edge.points flattener start, region p := by
  intro p hp
  cases edge with
  | line stop =>
    simp only [Edge.points, linePoints] at hp
    split at hp
    · obtain ⟨t, ht, rfl⟩ := List.mem_map.1 hp
      obtain ⟨hnonneg, hle⟩ := mem_fractions ht
      exact hconvex start stop t hstart h hnonneg hle
    · obtain rfl := List.mem_singleton.1 hp
      exact h
  | corner center rx ry first last =>
    obtain ⟨angle, rfl⟩ := mem_ellipticalRun hp
    exact h angle
  | loop center rx ry =>
    obtain ⟨angle, rfl⟩ := mem_ellipticalRun hp
    exact h angle
  | _ => exact h.elim

end Edge

/-- Edges that stay in a region are drawn there. -/
theorem Outline.forall_mem_points {flattener : Flattener} {region : Point ℝ → Prop}
    (hconvex : IsConvexRegion region) {start : Point ℝ} (hstart : region start)
    {edges : List (Edge ℝ)} (h : ∀ edge ∈ edges, edge.StaysIn region) :
    ∀ p ∈ points flattener start edges, region p := by
  induction edges generalizing start with
  | nil => exact List.forall_mem_nil _
  | cons edge edges ih =>
    obtain ⟨hedge, hedges⟩ := List.forall_mem_cons.1 h
    intro p hp
    obtain hp | hp := List.mem_append.1 hp
    · exact hedge.points hconvex hstart p hp
    · exact ih hedge.stop hedges p hp

/-! ## Loops -/

/-- The commands of edges are those of the edges in front, and more. -/
theorem Flattener.exists_flattenFrom_append (flattener : Flattener) (transform : Affine ℝ)
    (start : Point ℝ) (first second : List (Edge ℝ)) :
    ∃ later, flattener.flattenFrom transform start (first ++ second) =
      flattener.flattenFrom transform start first ++ later := by
  induction first generalizing start with
  | nil => exact ⟨_, rfl⟩
  | cons edge first ih =>
    obtain ⟨later, hlater⟩ := ih (edge.target flattener start)
    refine ⟨later, ?_⟩
    rw [List.cons_append, flattenFrom, flattenFrom, hlater, List.append_assoc]

namespace Outline

/-- However it is mapped, the outline is drawn from a point through points of a region back to the first
one, and each corner from where the pen is when its run begins. -/
structure IsLoopIn (flattener : Flattener) (region : Point ℝ → Prop) (outline : List (Edge ℝ)) :
    Prop where
  /-- The points, as they are before they are mapped. -/
  closed : ∃ first rest,
    (∀ transform, flattener.flatten transform outline =
      .move (transform.apply first) :: strokesTo transform rest) ∧
    rest.getLast? = some first ∧ ∀ p ∈ first :: rest, region p
  /-- The ellipse of a corner runs, at its first angle, through the point that is drawn to before. -/
  continuous : ∀ before center rx ry first last after,
    outline = before ++ .corner center rx ry first last :: after → ∀ transform,
      LeadTo (flattener.flatten transform before)
          (transform.apply (ellipsePoint center rx ry first)) ∧
        ∃ later, flattener.flatten transform outline =
          flattener.flatten transform before ++
            (strokesTo transform (ellipticalRun center rx ry first last flattener.cornerSteps) ++
              later)

theorem isLoopIn_of_isContinuous {flattener : Flattener}
    (hresolution : 1 ≤ flattener.resolution) {region : Point ℝ → Prop} {first : Point ℝ}
    {edges : List (Edge ℝ)} (hplain : ∀ edge ∈ edges, edge.IsPlain)
    (hcontinuous : IsContinuous first edges) (hback : edges.getLast?.map Edge.stop = some first)
    (hfirst : region first) (hregion : ∀ p ∈ points flattener first edges, region p) :
    IsLoopIn flattener region (.move first :: edges) := by
  constructor
  · refine ⟨first, points flattener first edges, ?_, ?_, List.forall_mem_cons.2 ⟨hfirst, hregion⟩⟩
    · intro transform
      rw [Flattener.flatten, Flattener.flattenFrom]
      exact congrArg _ (flattenFrom_eq_strokesTo hresolution transform first hplain)
    · rw [getLast?_points hresolution first hplain, hback]
  · intro before center rx ry angle last after houtline transform
    have hwhole : IsContinuous .origin (before ++ .corner center rx ry angle last :: after) := by
      rw [← houtline]
      exact ⟨trivial, hcontinuous⟩
    have htip : ellipsePoint center rx ry angle = tip before := hwhole.beginsAt
    -- The corner is not the first edge, so that there is a point before it.
    obtain ⟨before, rfl⟩ : ∃ later, before = .move first :: later := by
      cases before with
      | nil => cases houtline
      | cons edge before => exact ⟨before, by rw [(List.cons.inj houtline).1]⟩
    have hmove : BeginsWithMove (.move first :: before) := .cons first before
    refine ⟨?_, ?_⟩
    · rw [htip]
      exact Flattener.leadTo_flatten hresolution transform hmove (List.cons_ne_nil _ _)
    · obtain ⟨later, hlater⟩ := flattener.exists_flattenFrom_append transform .origin
        (.move first :: before ++ [.corner center rx ry angle last]) after
      refine ⟨later, ?_⟩
      rw [houtline, List.append_cons, Flattener.flatten, hlater,
        Flattener.flattenFrom_append_singleton flattener hresolution, List.append_assoc]
      rfl

end Outline

end PenPlot
