import PenPlot.Proofs.Arcs
import PenPlot.Proofs.Chaining

/-!
# How many commands a shape takes

How many moves and strokes a shape is drawn with can be told from its attributes, the resolution and
whether lines are subdivided; neither the transform nor any coordinate matters beyond that. A straight
line takes as many strokes as it has pieces, a curve as many as the resolution says, and a corner a
quarter of that, but at least one. An arc is judged twice, before it is drawn and while it is, and both
times by the point at which the edge before it ended. For paths that is the point at which the arc itself
says that it starts, since the segments of a path form a chain.
-/

namespace PenPlot

/-! ## Counting commands -/

namespace PenCommand

variable {α : Type}

/-- How many of the commands are moves. -/
def moves (commands : List (PenCommand α)) : Nat := commands.countP fun command => !command.isDraw

/-- How many of the commands are strokes. -/
def draws (commands : List (PenCommand α)) : Nat := commands.countP isDraw

@[simp] theorem moves_nil : moves ([] : List (PenCommand α)) = 0 := rfl

@[simp] theorem draws_nil : draws ([] : List (PenCommand α)) = 0 := rfl

theorem moves_append (first second : List (PenCommand α)) :
    moves (first ++ second) = moves first + moves second := List.countP_append

theorem draws_append (first second : List (PenCommand α)) :
    draws (first ++ second) = draws first + draws second := List.countP_append

/-- Commands that are made of points as strokes are strokes, one for each point. -/
theorem counts_map_draw {β : Type} (place : β → CanvasPoint α) (points : List β) :
    moves (points.map fun p => draw (place p)) = 0 ∧
      draws (points.map fun p => draw (place p)) = points.length := by
  constructor
  · simp [moves, List.countP_map, isDraw, Function.comp_def]
  · simp [draws, List.countP_map, isDraw, Function.comp_def]

end PenCommand

open PenCommand Scalar

/-! ## Edges -/

/-- How many strokes a straight line takes. -/
def Flattener.lineStrokes (flattener : Flattener) : Nat :=
  if flattener.subdivideLines then flattener.resolution else 1

section

variable {α : Type} [Scalar α]

/-- How many strokes an arc takes that starts at a point: none if its ends coincide, those of a line if a
radius is zero, and those of a curve otherwise. -/
def Arc.strokeCount (flattener : Flattener) (start : Point α) (arc : Arc α) : Nat :=
  if start == arc.stop then 0
  else if abs arc.rx == 0 || abs arc.ry == 0 then flattener.lineStrokes
  else flattener.resolution

theorem length_fractions (n : Nat) : (fractions n : List α).length = n := by
  simp [fractions]

theorem counts_strokesTo (transform : Affine α) (points : List (Point α)) :
    moves (strokesTo transform points) = 0 ∧ draws (strokesTo transform points) = points.length :=
  counts_map_draw transform.apply points

/-- A curve that is sampled takes as many strokes as it is sampled at parameters. -/
theorem counts_strokesTo_fractions (transform : Affine α) (n : Nat) (curve : α → Point α) :
    moves (strokesTo transform ((fractions n).map curve)) = 0 ∧
      draws (strokesTo transform ((fractions n).map curve)) = n := by
  obtain ⟨hmoves, hdraws⟩ := counts_strokesTo transform ((fractions n).map curve)
  exact ⟨hmoves, hdraws.trans (by rw [List.length_map, length_fractions])⟩

theorem EllipticalArc.counts_strokes (arc : EllipticalArc α) (transform : Affine α)
    (resolution : Nat) :
    moves (arc.strokes transform resolution) = 0 ∧
      draws (arc.strokes transform resolution) = resolution := by
  obtain ⟨hmoves, hdraws⟩ := counts_map_draw
    (fun t => (transform.comp arc.frame).apply
      (arc.unrotatedPoint (arc.startAngle + arc.deltaAngle * t)))
    (fractions resolution : List α)
  exact ⟨hmoves, hdraws.trans (length_fractions resolution)⟩

namespace Edge

/-- The edge is a move. -/
def isMove : Edge α → Bool
  | move _ => true
  | _ => false

/-- How many strokes an edge takes that starts at a point. -/
def strokeCount (flattener : Flattener) (start : Point α) : Edge α → Nat
  | move _ => 0
  | line _ => flattener.lineStrokes
  | quadratic _ _ | cubic _ _ _ | loop _ _ _ => flattener.resolution
  | arc shape => shape.strokeCount flattener start
  | corner _ _ _ _ _ => flattener.cornerSteps

theorem length_linePoints (flattener : Flattener) (start stop : Point α) :
    (linePoints flattener start stop).length = flattener.lineStrokes := by
  unfold linePoints Flattener.lineStrokes
  split
  · rw [List.length_map, length_fractions]
  · rfl

/-- An edge takes one move or only strokes. -/
theorem counts_commands (flattener : Flattener) (transform : Affine α) (start : Point α)
    (edge : Edge α) :
    moves (edge.commands flattener transform start) = (if edge.isMove then 1 else 0) ∧
      draws (edge.commands flattener transform start) = edge.strokeCount flattener start := by
  cases edge with
  | move stop => exact ⟨rfl, rfl⟩
  | line stop =>
    obtain ⟨hmoves, hdraws⟩ := counts_strokesTo transform (linePoints flattener start stop)
    exact ⟨hmoves, hdraws.trans (length_linePoints ..)⟩
  | arc shape =>
    simp only [commands, strokeCount, isMove, Arc.strokeCount]
    rw [Arc.strokes, shape.shape_eq start]
    by_cases hends : (start == shape.stop) = true
    · rw [if_pos hends, if_pos hends]
      exact ⟨rfl, rfl⟩
    · rw [if_neg hends, if_neg hends]
      by_cases hradius : (abs shape.rx == 0 || abs shape.ry == 0) = true
      · rw [if_pos hradius, if_pos hradius]
        obtain ⟨hmoves, hdraws⟩ := counts_strokesTo transform (linePoints flattener start shape.stop)
        exact ⟨hmoves, hdraws.trans (length_linePoints ..)⟩
      · rw [if_neg hradius, if_neg hradius]
        exact (shape.ellipse start).counts_strokes transform flattener.resolution
  | quadratic control stop =>
    exact counts_strokesTo_fractions transform flattener.resolution (quadraticPoint start control stop)
  | cubic control₁ control₂ stop =>
    exact counts_strokesTo_fractions transform flattener.resolution
      (cubicPoint start control₁ control₂ stop)
  | corner center rx ry first last =>
    exact counts_strokesTo_fractions transform flattener.cornerSteps _
  | loop center rx ry => exact counts_strokesTo_fractions transform flattener.resolution _

/-- How many strokes edges take, one behind the other, of which the first starts at a point. -/
def strokeCounts (flattener : Flattener) : Point α → List (Edge α) → Nat
  | _, [] => 0
  | start, edge :: edges =>
    edge.strokeCount flattener start + strokeCounts flattener (edge.target flattener start) edges

/-- How many strokes straight lines take does not depend on where they are. -/
theorem strokeCounts_map_line (flattener : Flattener) (start : Point α) (points : List (Point α)) :
    strokeCounts flattener start (points.map line) = points.length * flattener.lineStrokes := by
  induction points generalizing start with
  | nil => exact (Nat.zero_mul _).symm
  | cons p points ih =>
    rw [List.map_cons, strokeCounts, ih, List.length_cons, Nat.succ_mul, Nat.add_comm]
    rfl

end Edge

theorem Flattener.counts_flattenFrom (flattener : Flattener) (transform : Affine α)
    (start : Point α) (edges : List (Edge α)) :
    moves (flattener.flattenFrom transform start edges) = edges.countP Edge.isMove ∧
      draws (flattener.flattenFrom transform start edges) =
        Edge.strokeCounts flattener start edges := by
  induction edges generalizing start with
  | nil => exact ⟨rfl, rfl⟩
  | cons edge edges ih =>
    obtain ⟨hmoves, hdraws⟩ := edge.counts_commands flattener transform start
    obtain ⟨hlaterMoves, hlaterDraws⟩ := ih (edge.target flattener start)
    rw [flattenFrom, moves_append, draws_append, hmoves, hdraws, hlaterMoves, hlaterDraws,
      List.countP_cons, Nat.add_comm]
    exact ⟨rfl, rfl⟩

/-! ## Segments of a path -/

namespace Segment

/-- How many strokes a segment of a path takes. -/
def strokeCount (flattener : Flattener) : Segment α → Nat
  | move _ => 0
  | line _ _ | close _ _ => flattener.lineStrokes
  | quadratic _ _ _ | cubic _ _ _ _ => flattener.resolution
  | arc start shape => shape.strokeCount flattener start

/-- How many strokes the segments of a path take. -/
def strokeCounts (flattener : Flattener) : List (Segment α) → Nat
  | [] => 0
  | segment :: segments => segment.strokeCount flattener + strokeCounts flattener segments

/-- The segment starts a subpath. -/
def isMove (segment : Segment α) : Bool := segment.moveTarget?.isSome

omit [Scalar α] in
theorem isMove_edge (segment : Segment α) : segment.edge.isMove = segment.isMove := by
  cases segment <;> rfl

theorem target_edge (flattener : Flattener) (start : Point α) (segment : Segment α) :
    segment.edge.target flattener start = segment.target := by
  cases segment <;> rfl

/-- A segment that is drawn from where it starts takes the strokes that it says. -/
theorem strokeCount_edge (flattener : Flattener) {start : Point α} {segment : Segment α}
    (h : ∀ origin ∈ segment.origin?, origin = start) :
    segment.edge.strokeCount flattener start = segment.strokeCount flattener := by
  cases segment with
  | arc origin shape =>
    rw [← h origin rfl]
    rfl
  | _ => rfl

/-- The segments of a chain are drawn from where they start, if the first of them is. -/
theorem strokeCounts_edges (flattener : Flattener) {start : Point α} {segments : List (Segment α)}
    (hhead : ∀ first ∈ segments.head?, ∀ origin ∈ first.origin?, origin = start)
    (hchain : segments.IsChain Follows) :
    Edge.strokeCounts flattener start (segments.map edge) = strokeCounts flattener segments := by
  induction segments generalizing start with
  | nil => rfl
  | cons segment segments ih =>
    obtain ⟨hnext, hlater⟩ := List.isChain_cons.1 hchain
    rw [List.map_cons, Edge.strokeCounts, strokeCount_edge flattener (hhead segment rfl), target_edge,
      ih hnext hlater]
    rfl

end Segment

/-- The segments of a path form a chain from where the path is begun. -/
theorem PathState.chain_of_run {state : PathState α} {data : List Char}
    {segments : List (Segment α)} (h : (state.run data).1 = .ok segments) :
    (∀ first ∈ segments.head?, ∀ origin ∈ first.origin?, origin = state.current) ∧
      segments.IsChain Segment.Follows := by
  have hrun : state.run data = (.ok segments, (state.run data).2) := Prod.ext h rfl
  obtain ⟨steps, -, -, htake⟩ := run_eq_ok_iff.1 hrun
  have hleads := state.take_leads steps
  rw [htake] at hleads
  exact ⟨hleads.head, hleads.chain⟩

/-! ## Shapes -/

/-- The length that an attribute gives, or zero. -/
def lengthOf (attributes : List Char) (name : String) : α :=
  (readLength ((attribute? name.toList attributes).getD []) 0).1

/-- How many points the list of points has. -/
def pointCount (α : Type) [Scalar α] (attributes : List Char) : Nat :=
  match readNumbers (α := α) ((attribute? "points".toList attributes).getD []) with
  | .ok values => values.length / 2
  | .error _ => 0

/-- The corners of a rectangle are rounded: no radius is zero when it has been limited to half of the
shorter side. -/
def isRounded (α : Type) [Scalar α] (attributes : List Char) : Bool :=
  match (Outline.cornerRadii (α := α) attributes).result with
  | .ok radii =>
    let limit : α := lesser (lengthOf attributes "width") (lengthOf attributes "height") / 2
    !(lesser radii.1 limit == 0 || lesser radii.2 limit == 0)
  | .error _ => false

/-- How many moves and strokes a shape takes. -/
def Flattener.counts (α : Type) [Scalar α] (flattener : Flattener) (kind : ShapeKind)
    (attributes : List Char) : Nat × Nat :=
  let isZero (name : String) : Bool := (lengthOf attributes name : α) == 0
  match kind with
  | .line => (1, flattener.lineStrokes)
  | .polyline =>
    if pointCount α attributes = 0 then (0, 0)
    else (1, (pointCount α attributes - 1) * flattener.lineStrokes)
  | .polygon =>
    if pointCount α attributes = 0 then (0, 0)
    else (1, pointCount α attributes * flattener.lineStrokes)
  | .rect =>
    if isZero "width" || isZero "height" then (0, 0)
    else if isRounded α attributes then
      (1, 4 * flattener.lineStrokes + 4 * max (flattener.resolution / 4) 1)
    else (1, 4 * flattener.lineStrokes)
  | .circle => if isZero "r" then (0, 0) else (1, flattener.resolution)
  | .ellipse => if isZero "rx" || isZero "ry" then (0, 0) else (1, flattener.resolution)
  | .path =>
    match attribute? "d".toList attributes with
    | none => (0, 0)
    | some data =>
      match ((PathState.initial (α := α)).run data).1 with
      | .ok segments => (segments.countP Segment.isMove, Segment.strokeCounts flattener segments)
      | .error _ => (0, 0)

namespace Outline

/-- The edges take so many moves and strokes. -/
def Takes (flattener : Flattener) (edges : List (Edge α)) (counts : Nat × Nat) : Prop :=
  (edges.countP Edge.isMove, Edge.strokeCounts flattener .origin edges) = counts

theorem takes_polygonal (flattener : Flattener) (closed : Bool) (points : List (Point α)) :
    Takes flattener (polygonal closed points)
      (if points.length = 0 then (0, 0)
        else (1, (if closed then points.length else points.length - 1) * flattener.lineStrokes)) := by
  have hlines : ∀ points : List (Point α), (points.map Edge.line).countP Edge.isMove = 0 := by
    intro points
    rw [List.countP_eq_zero]
    intro edge hedge
    obtain ⟨p, -, rfl⟩ := List.mem_map.1 hedge
    exact Bool.false_ne_true
  cases points with
  | nil => rfl
  | cons first rest =>
    -- The outline is a move and lines, the closing one among them.
    obtain ⟨ends, hedges, hlength⟩ : ∃ ends : List (Point α),
        polygonal closed (first :: rest) = .move first :: ends.map .line ∧
          ends.length = if closed then (first :: rest).length else (first :: rest).length - 1 := by
      cases closed with
      | true => exact ⟨rest ++ [first], by simp [polygonal], by simp⟩
      | false => exact ⟨rest, by simp [polygonal], by simp⟩
    rw [Takes, hedges, if_neg (by simp), List.countP_cons, hlines, Edge.strokeCounts,
      Edge.strokeCounts_map_line, hlength]
    exact Prod.ext rfl (Nat.zero_add _)

omit [Scalar α] in
theorem length_pointsOf (values : List α) : (pointsOf values).length = values.length / 2 := by
  fun_induction pointsOf values with
  | case1 x y rest ih => simp only [List.length_cons, ih]; omega
  | case2 values hshort =>
    match values, hshort with
    | [], _ => simp
    | [_], _ => simp
    | x :: y :: rest, hshort => exact absurd rfl (hshort x y rest)

theorem takes_poly {flattener : Flattener} {kind : ShapeKind} {closed : Bool}
    {attributes : List Char} {edges : List (Edge α)}
    (h : (poly kind closed attributes).result = .ok edges) :
    Takes flattener edges
      (if pointCount α attributes = 0 then (0, 0)
        else (1, (if closed then pointCount α attributes else pointCount α attributes - 1) *
          flattener.lineStrokes)) := by
  obtain ⟨values, hvalues, rfl⟩ := exists_of_poly h
  have hcount : pointCount α attributes = (pointsOf values).length := by
    rw [pointCount, hvalues, length_pointsOf]
  rw [hcount]
  exact takes_polygonal flattener closed (pointsOf values)

/-- A length that must not be negative is the one that the attribute gives. -/
theorem eq_lengthOf_of_nonNegative {kind : ShapeKind} {attributes : List Char} {name : String}
    {value : α} (h : (Reading.nonNegative kind attributes name).result = .ok value) :
    value = lengthOf attributes name := by
  obtain ⟨first, hfirst, h⟩ := Reading.result_bind_eq_ok.1 h
  obtain rfl : lengthOf attributes name = first := Except.ok.inj hfirst
  by_cases hneg : lengthOf attributes name < (0 : α)
  · rw [if_pos hneg] at h
    cases h
  · rw [if_neg hneg] at h
    exact (Except.ok.inj h).symm

theorem takes_rect {flattener : Flattener} {attributes : List Char} {edges : List (Edge α)}
    (h : (rect attributes).result = .ok edges) :
    Takes flattener edges (flattener.counts α .rect attributes) := by
  obtain ⟨x, y, width, height, hwidth, hheight, hedges⟩ := exists_of_rect h
  obtain rfl := eq_lengthOf_of_nonNegative hwidth
  obtain rfl := eq_lengthOf_of_nonNegative hheight
  simp only [Flattener.counts]
  split at hedges
  · next hzero =>
    rw [hedges, if_pos hzero]
    rfl
  · next hsize =>
    obtain ⟨radii, hradii, rfl⟩ := hedges
    rw [if_neg hsize]
    split
    · next hplain =>
      rw [if_neg (by simp [isRounded, hradii, hplain])]
      refine Prod.ext rfl ?_
      simp only [rectangle, Edge.strokeCounts, Edge.strokeCount]
      omega
    · next hrounded =>
      rw [if_pos (by simp [isRounded, hradii, hrounded])]
      refine Prod.ext rfl ?_
      simp only [roundedRectangle, Edge.strokeCounts, Edge.strokeCount, Flattener.cornerSteps]
      omega

theorem takes_ellipse {flattener : Flattener} {rx ry : α} {attributes : List Char}
    {edges : List (Edge α)} (h : (ellipse rx ry attributes).result = .ok edges) :
    Takes flattener edges (if rx == 0 || ry == 0 then (0, 0) else (1, flattener.resolution)) := by
  obtain ⟨center, rfl⟩ := exists_of_ellipse h
  by_cases hzero : (rx == 0 || ry == 0) = true
  · rw [if_pos hzero, if_pos hzero]
    rfl
  · rw [if_neg hzero, if_neg hzero]
    exact Prod.ext rfl (Nat.zero_add _)

theorem takes_path {flattener : Flattener} {attributes : List Char} {edges : List (Edge α)}
    (h : (path attributes).result = .ok edges) :
    Takes flattener edges (flattener.counts α .path attributes) := by
  simp only [Flattener.counts]
  obtain ⟨hdata, rfl⟩ | ⟨data, segments, hdata, hrun, rfl⟩ := exists_of_path h
  · rw [hdata]
    rfl
  · obtain ⟨hhead, hchain⟩ := PathState.chain_of_run hrun
    have hmoves : (segments.map Segment.edge).countP Edge.isMove =
        segments.countP Segment.isMove := by
      rw [List.countP_map]
      exact List.countP_congr fun segment _ => by rw [Function.comp_apply, segment.isMove_edge]
    simp only [hdata, hrun]
    exact Prod.ext hmoves (Segment.strokeCounts_edges flattener hhead hchain)

theorem takes_ofShape {flattener : Flattener} {kind : ShapeKind} {attributes : List Char}
    {edges : List (Edge α)} (h : (ofShape kind attributes).result = .ok edges) :
    Takes flattener edges (flattener.counts α kind attributes) := by
  cases kind with
  | line =>
    simp only [ofShape, Reading.result_bind_eq_ok] at h
    obtain ⟨x₁, -, y₁, -, x₂, -, y₂, -, h⟩ := h
    cases h
    exact Prod.ext rfl (Nat.zero_add _)
  | polyline => exact takes_poly h
  | polygon => exact takes_poly h
  | rect => exact takes_rect h
  | circle =>
    obtain ⟨r, hr, h⟩ := Reading.result_bind_eq_ok.1 h
    obtain rfl := eq_lengthOf_of_nonNegative hr
    have htakes : Takes flattener edges _ := takes_ellipse h
    rwa [Bool.or_self] at htakes
  | ellipse =>
    obtain ⟨rx, hrx, h⟩ := Reading.result_bind_eq_ok.1 h
    obtain ⟨ry, hry, h⟩ := Reading.result_bind_eq_ok.1 h
    obtain rfl := eq_lengthOf_of_nonNegative hrx
    obtain rfl := eq_lengthOf_of_nonNegative hry
    exact takes_ellipse h
  | path => exact takes_path h

end Outline

namespace Flattener

/-- A shape that is drawn without a fault sends nothing, or a move first. How many moves and strokes it
sends is told by its attributes, the resolution and whether lines are subdivided, whatever the transform. -/
theorem recorded_counts {flattener : Flattener} {kind : ShapeKind} {attributes : List Char}
    {transform : Affine α} {commands : List (PenCommand α)}
    (h : flattener.recorded kind attributes transform = (.ok (), commands)) :
    (commands = [] ∨ ∃ place later, commands = .move place :: later) ∧
      (moves commands, draws commands) = flattener.counts α kind attributes := by
  rw [recorded_eq] at h
  cases houtline : (Outline.ofShape (α := α) kind attributes).result with
  | error fault =>
    rw [houtline] at h
    cases h
  | ok outline =>
    rw [houtline] at h
    obtain rfl : flattener.flatten transform outline = commands := (Prod.mk.inj h).2
    have hled := flattener.ledByMove_flatten transform (Outline.ofShape_beginsWithMove houtline)
    have htakes : Outline.Takes flattener outline _ := Outline.takes_ofShape houtline
    obtain ⟨hmoves, hdraws⟩ := flattener.counts_flattenFrom transform .origin outline
    refine ⟨?_, ?_⟩
    · cases hcommands : flattener.flatten transform outline with
      | nil => exact .inl rfl
      | cons first later =>
        have hfirst : first.isDraw = false := hled first (by rw [hcommands]; rfl)
        cases first with
        | move place => exact .inr ⟨place, later, rfl⟩
        | draw place => cases hfirst
    · rw [← htakes, flatten, hmoves, hdraws]

/-- A straight arc, one without length, a whole one, a curve and a close, with lines in three pieces. -/
theorem recorded_counts_arcs :
    let flattener : Flattener := ⟨3, true⟩
    let attributes := "d='M0 0A0 3 0 0 0 4 0A5 5 0 0 0 4 0A5 5 0 0 0 8 0Q1 1 2 2z'".toList
    let drawn := flattener.recorded (α := Float) .path attributes .identity
    drawn = (.ok (), drawn.2) ∧ (moves drawn.2, draws drawn.2) = (1, 3 + 0 + 3 + 3 + 3) := by
  intro flattener attributes drawn
  have hdrawn : drawn = (.ok (), drawn.2) := Prod.ext (by decide +kernel) rfl
  have hcounts : flattener.counts Float .path attributes = (1, 3 + 0 + 3 + 3 + 3) := by decide +kernel
  exact ⟨hdrawn, (recorded_counts hdrawn).2.trans hcounts⟩

end Flattener

end

end PenPlot
