import PenPlot.Proofs.Tracking
import PenPlot.Shape.Flatten

/-!
# Shapes begin with a move

Whatever its kind and its attributes, an outline that can be read begins with a move or is empty, and
so do the commands that draw it. For a path the reason lies in three places: the data begins with the
command that puts the pen down, an instruction has at least one group of arguments, and the first step
of that command starts a subpath.
-/

namespace PenPlot

variable {α : Type}

/-- The edges begin with a move, if there are any. -/
def BeginsWithMove (edges : List (Edge α)) : Prop := ∀ edge ∈ edges.head?, ∃ stop, edge = .move stop

theorem BeginsWithMove.nil : BeginsWithMove ([] : List (Edge α)) := by simp [BeginsWithMove]

theorem BeginsWithMove.cons (stop : Point α) (edges : List (Edge α)) :
    BeginsWithMove (.move stop :: edges) := by
  simp [BeginsWithMove]

theorem Outline.polygonal_beginsWithMove (closed : Bool) (points : List (Point α)) :
    BeginsWithMove (polygonal closed points) := by
  cases points with
  | nil => exact .nil
  | cons first rest => exact .cons _ _

/-! ## Paths -/

/-- The command that puts the pen down asks for a move. -/
theorem Step.ofGroup?_moveTo {group : List (Argument α)} {step : Step α}
    (h : ofGroup? .moveTo group = some step) : ∃ stop, step = .move stop := by
  unfold ofGroup? at h
  split at h
  case h_1 =>
    cases h
    exact ⟨_, rfl⟩
  all_goals simp_all

variable [Scalar α]

/-- The steps of the command that puts the pen down begin with a move. -/
theorem PathInstruction.steps_of_moveTo {instruction : PathInstruction} {steps : List (Step α)}
    (hmove : instruction.command = .moveTo) (h : instruction.steps = .ok steps) :
    ∃ stop later, steps = .move stop :: later := by
  simp only [PathInstruction.steps, hmove] at h
  cases hgroups : readGroups (α := α) PathCommand.moveTo.slots instruction.arguments with
  | error flaw => simp [hgroups] at h
  | ok groups =>
    cases groups with
    | nil => simp [hgroups] at h
    | cons group groups =>
      simp only [hgroups, stepsOfGroups] at h
      split at h
      · cases h
      · next step hstep =>
        split at h
        · cases h
        · next later hlater =>
          obtain ⟨stop, rfl⟩ := Step.ofGroup?_moveTo hstep
          exact ⟨stop, later, by simpa using h.symm⟩

/-- The segments of a path begin with a move, if there are any. -/
theorem PathState.head_run {state : PathState α} {data : List Char} {segments : List (Segment α)}
    (h : (state.run data).1 = .ok segments) :
    ∀ segment ∈ segments.head?, ∃ stop, segment = .move stop := by
  unfold run at h
  split at h
  · cases h
  · split at h
    · cases h
      simp
    · next first later _ =>
      split at h
      · next hmove =>
        simp only [follow] at h
        split at h
        · cases h
        · next steps hsteps =>
          obtain ⟨stop, laterSteps, rfl⟩ := PathInstruction.steps_of_moveTo hmove hsteps
          simp only [Except.map] at h
          split at h
          · cases h
          · simp only [advanceAll, advance, List.cons_append, Except.ok.injEq] at h
            subst h
            simp
      · cases h

/-! ## Outlines -/

namespace Outline

open Scalar

variable {kind : ShapeKind} {closed : Bool} {attributes : List Char} {edges : List (Edge α)}

/-- A list of points that can be read is joined by lines. -/
theorem exists_of_poly (h : (poly kind closed attributes).result = .ok edges) :
    ∃ values, readNumbers ((attribute? "points".toList attributes).getD []) = .ok values ∧
      edges = polygonal closed (pointsOf values) := by
  simp only [poly, Reading.result_bind_eq_ok] at h
  obtain ⟨values, hvalues, h⟩ := h
  cases hread : readNumbers (α := α) ((attribute? "points".toList attributes).getD []) with
  | error flaw =>
    rw [hread] at hvalues
    cases hvalues
  | ok found =>
    rw [hread] at hvalues
    cases hvalues
    split at h
    · cases h
      exact ⟨values, rfl, rfl⟩
    · cases h

/-- A rectangle that can be read has no edges if a side is zero, and otherwise corners with the radii
that are read, limited to half of the shorter side. -/
theorem exists_of_rect (h : (rect attributes).result = .ok edges) :
    ∃ x y width height : α,
      (Reading.nonNegative .rect attributes "width").result = .ok width ∧
      (Reading.nonNegative .rect attributes "height").result = .ok height ∧
      if width == 0 || height == 0 then edges = []
      else ∃ radii, (cornerRadii attributes).result = .ok radii ∧
        let rx := lesser radii.1 (lesser width height / 2)
        let ry := lesser radii.2 (lesser width height / 2)
        edges = if rx == 0 || ry == 0 then rectangle x y width height
          else roundedRectangle x y width height rx ry := by
  simp only [rect, Reading.result_bind_eq_ok] at h
  obtain ⟨x, -, y, -, width, hwidth, height, hheight, h⟩ := h
  refine ⟨x, y, width, height, hwidth, hheight, ?_⟩
  split at h
  · next hzero =>
    cases h
    rw [if_pos hzero]
  · next hsize =>
    rw [if_neg hsize]
    obtain ⟨radii, hradii, h⟩ := Reading.result_bind_eq_ok.1 h
    refine ⟨radii, hradii, ?_⟩
    split at h
    · next hplain =>
      cases h
      exact (if_pos hplain).symm
    · next hrounded =>
      cases h
      exact (if_neg hrounded).symm

/-- An ellipse that can be read has no edges if a radius is zero. -/
theorem exists_of_ellipse {rx ry : α} (h : (ellipse rx ry attributes).result = .ok edges) :
    ∃ center, edges = if rx == 0 || ry == 0 then [] else elliptical center rx ry := by
  unfold ellipse at h
  split at h
  · next hzero =>
    cases h
    exact ⟨.origin, (if_pos hzero).symm⟩
  · next hsize =>
    simp only [Reading.result_bind_eq_ok] at h
    obtain ⟨cx, -, cy, -, h⟩ := h
    cases h
    exact ⟨⟨cx, cy⟩, (if_neg hsize).symm⟩

/-- The edges of a path that can be read are the segments that its data is followed by. -/
theorem exists_of_path (h : (path attributes).result = .ok edges) :
    (attribute? "d".toList attributes = none ∧ edges = []) ∨
      ∃ data segments, attribute? "d".toList attributes = some data ∧
        ((PathState.initial (α := α)).run data).1 = .ok segments ∧
        edges = segments.map Segment.edge := by
  unfold path at h
  split at h
  · next hdata =>
    cases h
    exact .inl ⟨hdata, rfl⟩
  · next data hdata =>
    cases hrun : ((PathState.initial (α := α)).run data).1 with
    | error flaw =>
      rw [hrun] at h
      cases h
    | ok segments =>
      rw [hrun] at h
      cases h
      exact .inr ⟨data, segments, hdata, hrun, rfl⟩

theorem poly_beginsWithMove (h : (poly kind closed attributes).result = .ok edges) :
    BeginsWithMove edges := by
  obtain ⟨values, -, rfl⟩ := exists_of_poly h
  exact polygonal_beginsWithMove _ _

theorem rect_beginsWithMove (h : (rect attributes).result = .ok edges) : BeginsWithMove edges := by
  obtain ⟨x, y, width, height, -, -, hedges⟩ := exists_of_rect h
  split at hedges
  · rw [hedges]
    exact .nil
  · obtain ⟨radii, -, rfl⟩ := hedges
    split
    · exact .cons _ _
    · exact .cons _ _

theorem ellipse_beginsWithMove {rx ry : α} (h : (ellipse rx ry attributes).result = .ok edges) :
    BeginsWithMove edges := by
  obtain ⟨center, rfl⟩ := exists_of_ellipse h
  split
  · exact .nil
  · exact .cons _ _

theorem path_beginsWithMove (h : (path attributes).result = .ok edges) : BeginsWithMove edges := by
  obtain ⟨-, rfl⟩ | ⟨data, segments, -, hrun, rfl⟩ := exists_of_path h
  · exact .nil
  · cases segments with
    | nil => exact .nil
    | cons segment segments =>
      obtain ⟨stop, rfl⟩ := PathState.head_run hrun segment rfl
      exact .cons _ _

/-- An outline that can be read begins with a move, if it has any edges. -/
theorem ofShape_beginsWithMove (h : (ofShape kind attributes).result = .ok edges) :
    BeginsWithMove edges := by
  cases kind with
  | line =>
    simp only [ofShape, Reading.result_bind_eq_ok] at h
    obtain ⟨x₁, -, y₁, -, x₂, -, y₂, -, h⟩ := h
    cases h
    exact .cons _ _
  | polyline => exact poly_beginsWithMove h
  | polygon => exact poly_beginsWithMove h
  | rect => exact rect_beginsWithMove h
  | circle =>
    obtain ⟨r, -, h⟩ := Reading.result_bind_eq_ok.1 h
    exact ellipse_beginsWithMove h
  | ellipse =>
    obtain ⟨rx, -, h⟩ := Reading.result_bind_eq_ok.1 h
    obtain ⟨ry, -, h⟩ := Reading.result_bind_eq_ok.1 h
    exact ellipse_beginsWithMove h
  | path => exact path_beginsWithMove h

end Outline

/-! ## Commands -/

namespace Flattener

theorem ledByMove_flatten (flattener : Flattener) (transform : Affine α) {edges : List (Edge α)}
    (h : BeginsWithMove edges) : LedByMove (flattener.flatten transform edges) := by
  cases edges with
  | nil => simp [LedByMove, flatten, flattenFrom]
  | cons edge edges =>
    obtain ⟨stop, rfl⟩ := h edge rfl
    simp [LedByMove, flatten, flattenFrom, Edge.commands, PenCommand.isDraw]

/-- The commands that draw a shape begin with a move, if there are any. -/
theorem ledByMove_flattenShape {flattener : Flattener} {kind : ShapeKind} {attributes : List Char}
    {transform : Affine α} {commands : List (PenCommand α)}
    (h : (flattener.flattenShape kind attributes transform).result = .ok commands) :
    LedByMove commands := by
  obtain ⟨outline, houtline, h⟩ := Reading.result_bind_eq_ok.1 h
  cases h
  exact ledByMove_flatten flattener transform (Outline.ofShape_beginsWithMove houtline)

end Flattener

end PenPlot
