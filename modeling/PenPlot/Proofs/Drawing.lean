import PenPlot.Proofs.Leading
import PenPlot.Shape.Drawing

/-!
# All of a shape or nothing

Drawing a shape is the same as reading its outline and following it then, although a line sends its
move between the readings of its two ends. So either the outline can be read, and the sink receives all
commands that draw the shape, or it is at fault, and the sink receives nothing.
-/

namespace PenPlot

variable {α τ β : Type}

namespace Drawing

/-- Two ways of drawing are the same if they run the same. -/
theorem ext {first second : Drawing α τ β} (h : ∀ pencil, first.run pencil = second.run pencil) :
    first = second := funext h

theorem run_read_of_ok {reading : Reading α β} {value : β} (h : reading.result = .ok value)
    (pencil : Pencil α τ) :
    (read reading).run pencil =
      .ok value { pencil with warnings := pencil.warnings ++ reading.warnings } := by
  simp only [EStateM.run, read, h]

theorem run_read_of_error {reading : Reading α β} {fault : Fault α}
    (h : reading.result = .error fault) (pencil : Pencil α τ) :
    (read reading).run pencil =
      .error fault { pencil with warnings := pencil.warnings ++ reading.warnings } := by
  simp only [EStateM.run, read, h]

variable [Scalar α]

theorem run_follow (flattener : Flattener) (transform : Affine α) (sink : Sink α τ) (edge : Edge α)
    (pencil : Pencil α τ) :
    (follow flattener transform sink edge).run pencil =
      .ok ()
        { pencil with
          tip := edge.target flattener pencil.tip
          receiver :=
            sink.receiveAll pencil.receiver (edge.commands flattener transform pencil.tip) } := rfl

/-- Following edges sends the commands that draw them, and nothing else. -/
theorem run_followAll (flattener : Flattener) (transform : Affine α) (sink : Sink α τ)
    (edges : List (Edge α)) (pencil : Pencil α τ) :
    ∃ tip, (followAll flattener transform sink edges).run pencil =
      .ok ()
        { pencil with
          tip := tip
          receiver :=
            sink.receiveAll pencil.receiver (flattener.flattenFrom transform pencil.tip edges) } := by
  induction edges generalizing pencil with
  | nil => exact ⟨pencil.tip, rfl⟩
  | cons edge edges ih =>
    obtain ⟨tip, hrest⟩ := ih
      { pencil with
        tip := edge.target flattener pencil.tip
        receiver := sink.receiveAll pencil.receiver (edge.commands flattener transform pencil.tip) }
    refine ⟨tip, ?_⟩
    rw [Flattener.flattenFrom, Sink.receiveAll_append]
    exact hrest

end Drawing

namespace Flattener

open Drawing

variable [Scalar α]

/-- A shape is drawn as if its outline were read first and followed then. -/
theorem drawShape_eq (flattener : Flattener) (sink : Sink α τ) (kind : ShapeKind)
    (attributes : List Char) (transform : Affine α) :
    flattener.drawShape sink kind attributes transform =
      (read (Outline.ofShape kind attributes) >>= followAll flattener transform sink) := by
  cases kind with
  | line =>
    -- The readings of the second end move past the sending of the first: they are never at fault.
    refine Drawing.ext fun pencil => ?_
    obtain ⟨x₁, hx₁⟩ := Reading.exists_result_length (α := α) attributes "x1"
    obtain ⟨y₁, hy₁⟩ := Reading.exists_result_length (α := α) attributes "y1"
    obtain ⟨x₂, hx₂⟩ := Reading.exists_result_length (α := α) attributes "x2"
    obtain ⟨y₂, hy₂⟩ := Reading.exists_result_length (α := α) attributes "y2"
    have houtline : (Outline.ofShape (α := α) .line attributes).result =
        .ok [.move ⟨x₁, y₁⟩, .line ⟨x₂, y₂⟩] := by
      simp only [Outline.ofShape, Reading.result_bind, hx₁, hy₁, hx₂, hy₂, Except.bind,
        Reading.result_pure]
    have hwarnings : (Outline.ofShape (α := α) .line attributes).warnings =
        (Reading.length attributes "x1").warnings ++ ((Reading.length attributes "y1").warnings ++
          ((Reading.length attributes "x2").warnings ++
            ((Reading.length attributes "y2").warnings ++ []))) := by
      simp only [Outline.ofShape, Reading.warnings_bind_of_ok hx₁, Reading.warnings_bind_of_ok hy₁,
        Reading.warnings_bind_of_ok hx₂, Reading.warnings_bind_of_ok hy₂]
      rfl
    simp -implicitDefEqProofs only [drawShape, EStateM.run_bind, run_read_of_ok hx₁,
      run_read_of_ok hy₁, run_read_of_ok hx₂, run_read_of_ok hy₂, run_read_of_ok houtline, followAll,
      run_follow, EStateM.run_pure, hwarnings, List.append_nil, List.append_assoc]
  | _ => rfl

/-- A shape that can be read is drawn completely. -/
theorem run_drawShape_of_ok {flattener : Flattener} {kind : ShapeKind} {attributes : List Char}
    {transform : Affine α} {commands : List (PenCommand α)}
    (h : (flattener.flattenShape kind attributes transform).result = .ok commands)
    (sink : Sink α τ) (receiver : τ) :
    ∃ pencil, (flattener.drawShape sink kind attributes transform).run ⟨.origin, receiver, []⟩ =
        .ok () pencil ∧ pencil.receiver = sink.receiveAll receiver commands := by
  obtain ⟨outline, houtline, h⟩ := Reading.result_bind_eq_ok.1 h
  cases h
  obtain ⟨tip, hfollow⟩ := run_followAll flattener transform sink outline
    ⟨.origin, receiver, [] ++ (Outline.ofShape (α := α) kind attributes).warnings⟩
  rw [drawShape_eq, EStateM.run_bind, run_read_of_ok houtline]
  exact ⟨_, hfollow, rfl⟩

/-- Nothing is sent of a shape with a fault. -/
theorem run_drawShape_of_error {flattener : Flattener} {kind : ShapeKind} {attributes : List Char}
    {transform : Affine α} {fault : Fault α}
    (h : (flattener.flattenShape kind attributes transform).result = .error fault)
    (sink : Sink α τ) (receiver : τ) :
    ∃ pencil, (flattener.drawShape sink kind attributes transform).run ⟨.origin, receiver, []⟩ =
        .error fault pencil ∧ pencil.receiver = receiver := by
  rcases Reading.result_bind_eq_error.1 h with houtline | ⟨outline, houtline, h⟩
  · rw [drawShape_eq, EStateM.run_bind, run_read_of_error houtline]
    exact ⟨_, rfl, rfl⟩
  · cases h

end Flattener

end PenPlot
