import PenPlot.Proofs.Drawing
import PenPlot.Proofs.Exact

/-!
# Drawings under a transform

A shape is flattened in the coordinates of the document, and each point is mapped to the canvas then. So
drawing under a product of two transforms is drawing under the inner one and mapping what is drawn by
the outer one. The arc is the only edge for which there is something to show: its points are mapped by
the product of the transform with the rotation of its ellipse.
-/

namespace PenPlot

open Exact

namespace Affine

/-- Where a point of the canvas goes, if it is mapped once more. -/
def move {α : Type} [Scalar α] (m : Affine α) (p : CanvasPoint α) : CanvasPoint α := m.apply ⟨p.x, p.y⟩

/-- The command of the same kind, to the point where its point goes. -/
def moveCommand {α : Type} [Scalar α] (m : Affine α) : PenCommand α → PenCommand α
  | .move place => .move (m.move place)
  | .draw place => .draw (m.move place)

theorem isDraw_moveCommand {α : Type} [Scalar α] (m : Affine α) (command : PenCommand α) :
    (m.moveCommand command).isDraw = command.isDraw := by
  cases command <;> rfl

/-- A product maps by the inner transform first. -/
theorem apply_comp (outer inner : Affine ℝ) (p : Point ℝ) :
    (outer.comp inner).apply p = outer.move (inner.apply p) := by
  simp only [move, apply, comp, CanvasPoint.mk.injEq]
  constructor <;> ring

end Affine

theorem strokesTo_comp (outer inner : Affine ℝ) (points : List (Point ℝ)) :
    strokesTo (outer.comp inner) points = (strokesTo inner points).map outer.moveCommand := by
  simp only [strokesTo, List.map_map]
  refine List.map_congr_left fun p _ => ?_
  simp only [Function.comp_apply, Affine.moveCommand, Affine.apply_comp]

/-- The rotation of the ellipse is the innermost of the transforms. -/
theorem EllipticalArc.strokes_comp (arc : EllipticalArc ℝ) (outer inner : Affine ℝ)
    (resolution : ℕ) :
    arc.strokes (outer.comp inner) resolution =
      (arc.strokes inner resolution).map outer.moveCommand := by
  simp only [EllipticalArc.strokes, List.map_map]
  refine List.map_congr_left fun t _ => ?_
  simp only [Function.comp_apply, Affine.moveCommand, Affine.comp_assoc, Affine.apply_comp]

theorem Arc.strokes_comp (arc : Arc ℝ) (start : Point ℝ) (outer inner : Affine ℝ)
    (resolution : ℕ) :
    arc.strokes start (outer.comp inner) resolution =
      (arc.strokes start inner resolution).map outer.moveCommand := by
  unfold Arc.strokes
  cases arc.shape start with
  | omitted => rfl
  | straight => exact strokesTo_comp outer inner _
  | elliptical ellipse => exact ellipse.strokes_comp outer inner resolution

/-- An edge is drawn under a product as it is drawn under the inner transform and mapped by the outer. -/
theorem Edge.commands_comp (flattener : Flattener) (outer inner : Affine ℝ) (start : Point ℝ)
    (edge : Edge ℝ) :
    edge.commands flattener (outer.comp inner) start =
      (edge.commands flattener inner start).map outer.moveCommand := by
  cases edge with
  | move stop => simp only [commands, Affine.apply_comp, List.map_cons, List.map_nil,
      Affine.moveCommand]
  | arc shape =>
    simp only [commands]
    split
    · exact strokesTo_comp outer inner _
    · exact shape.strokes_comp start outer inner _
  | _ => exact strokesTo_comp outer inner _

namespace Flattener

theorem flattenFrom_comp (flattener : Flattener) (outer inner : Affine ℝ) (start : Point ℝ)
    (edges : List (Edge ℝ)) :
    flattener.flattenFrom (outer.comp inner) start edges =
      (flattener.flattenFrom inner start edges).map outer.moveCommand := by
  induction edges generalizing start with
  | nil => rfl
  | cons edge edges ih => rw [flattenFrom, flattenFrom, List.map_append, Edge.commands_comp, ih]

/-- What drawing a shape comes to, and the commands that are sent on the way. -/
def recorded {α : Type} [Scalar α] (flattener : Flattener) (kind : ShapeKind)
    (attributes : List Char) (transform : Affine α) :
    Except (Fault α) Unit × List (PenCommand α) :=
  match (flattener.drawShape .recording kind attributes transform).run ⟨.origin, #[], []⟩ with
  | .ok _ pencil => (.ok (), pencil.receiver.toList)
  | .error fault pencil => (.error fault, pencil.receiver.toList)

/-- A shape sends all commands that draw its outline, or none if the outline is at fault. -/
theorem recorded_eq {α : Type} [Scalar α] (flattener : Flattener) (kind : ShapeKind)
    (attributes : List Char) (transform : Affine α) :
    flattener.recorded kind attributes transform =
      match (Outline.ofShape (α := α) kind attributes).result with
      | .ok outline => (.ok (), flattener.flatten transform outline)
      | .error fault => (.error fault, []) := by
  cases houtline : (Outline.ofShape (α := α) kind attributes).result with
  | ok outline =>
    have hcommands : (flattener.flattenShape kind attributes transform).result =
        .ok (flattener.flatten transform outline) :=
      Reading.result_bind_eq_ok.2 ⟨outline, houtline, rfl⟩
    obtain ⟨pencil, hrun, hreceiver⟩ := run_drawShape_of_ok hcommands .recording #[]
    simp only [recorded, hrun, hreceiver, Sink.receiveAll_recording, List.nil_append]
  | error fault =>
    have hfault : (flattener.flattenShape kind attributes transform).result = .error fault :=
      Reading.result_bind_eq_error.2 (.inl houtline)
    obtain ⟨pencil, hrun, hreceiver⟩ := run_drawShape_of_error hfault .recording #[]
    simp only [recorded, hrun, hreceiver]

/-- Drawing a shape commutes with transforms. Under a product it comes to the same, a fault or the end,
as under the inner transform alone, and sends the same commands with their points mapped by the outer
one. So neither the number of commands nor their kinds depend on the transform. -/
theorem recorded_comp (flattener : Flattener) (kind : ShapeKind) (attributes : List Char)
    (outer inner : Affine ℝ) :
    (flattener.recorded kind attributes (outer.comp inner)).1 =
        (flattener.recorded kind attributes inner).1 ∧
      (flattener.recorded kind attributes (outer.comp inner)).2 =
        (flattener.recorded kind attributes inner).2.map outer.moveCommand ∧
      (flattener.recorded kind attributes outer).2.map PenCommand.isDraw =
        (flattener.recorded kind attributes inner).2.map PenCommand.isDraw := by
  have hcomp : ∀ first second : Affine ℝ,
      (flattener.recorded kind attributes (first.comp second)).1 =
          (flattener.recorded kind attributes second).1 ∧
        (flattener.recorded kind attributes (first.comp second)).2 =
          (flattener.recorded kind attributes second).2.map first.moveCommand := by
    intro first second
    rw [recorded_eq, recorded_eq]
    cases (Outline.ofShape (α := ℝ) kind attributes).result with
    | ok outline => exact ⟨rfl, flattener.flattenFrom_comp first second .origin outline⟩
    | error fault => exact ⟨rfl, rfl⟩
  -- Every transform is a product with the one that moves nothing.
  have hkinds : ∀ transform : Affine ℝ,
      (flattener.recorded kind attributes transform).2.map PenCommand.isDraw =
        (flattener.recorded (α := ℝ) kind attributes .identity).2.map PenCommand.isDraw := by
    intro transform
    have hmapped := (hcomp transform .identity).2
    rw [Affine.comp_identity] at hmapped
    rw [hmapped, List.map_map]
    refine List.map_congr_left ?_
    intro command _
    exact transform.isDraw_moveCommand command
  exact ⟨(hcomp outer inner).1, (hcomp outer inner).2, (hkinds outer).trans (hkinds inner).symm⟩

end Flattener

end PenPlot
