import Mathlib.Control.Monad.Basic
import PenPlot.Proofs.Leading
import PenPlot.Proofs.Steps
import PenPlot.Scalar.Machine

/-!
# The explicit form of a path

What a step means may depend on what was before it: relative coordinates on the current point, a
horizontal or a vertical line on one coordinate of it, and a smooth curve on the curve before. The
explicit form of a path says all this in the step itself, in absolute coordinates and with all control
points. It is defined from step to step, by what the explicit step before says, without the memory that
a path is followed with.

Following a path and following its explicit form come to the same: what is remembered of the last
control point is what the explicit step before says about it.
-/

namespace PenPlot

/-- A step that says everything about its segment but where it starts. -/
inductive ExplicitStep (α : Type) where
  /-- Starts a subpath. -/
  | move (stop : Point α)
  /-- A straight line. -/
  | line (stop : Point α)
  /-- A cubic curve. -/
  | cubic (control₁ control₂ stop : Point α)
  /-- A quadratic curve. -/
  | quadratic (control stop : Point α)
  /-- An elliptical arc, its rotation in degrees. -/
  | arc (rx ry degrees : α) (large sweep : Bool) (stop : Point α)
  /-- A straight line back to the start of the subpath. -/
  | close
  deriving DecidableEq, Repr

namespace ExplicitStep

variable {α : Type}

/-- The step, as path data have it. -/
def step : ExplicitStep α → Step α
  | move stop => .move stop
  | line stop => .line stop
  | cubic control₁ control₂ stop => .cubic control₁ control₂ stop
  | quadratic control stop => .quadratic control stop
  | arc rx ry degrees large sweep stop => .arc rx ry degrees large sweep stop
  | close => .close

/-- Where the step ends in a subpath with a given start. -/
def target (start : Point α) : ExplicitStep α → Point α
  | move stop | line stop | cubic _ _ stop | quadratic _ stop | arc _ _ _ _ _ stop => stop
  | close => start

/-- The start of the subpath behind the step. -/
def startBehind (start : Point α) : ExplicitStep α → Point α
  | move stop => stop
  | _ => start

/-- The last control point of a curve of a family. -/
def lastControl? : CurveFamily → ExplicitStep α → Option (Point α)
  | .cubic, cubic _ control₂ _ => some control₂
  | .quadratic, quadratic control _ => some control
  | _, _ => none

end ExplicitStep

variable {α : Type} [Scalar α]

/-- What a coordinate means where the current point has the coordinate `here`. -/
def CoordinateMode.coordinate (here : α) : CoordinateMode → α → α
  | absolute, x => x
  | relative, x => here + x

/-- What a pair of coordinates means at the current point `here`. -/
def CoordinateMode.point (here : Point α) (mode : CoordinateMode) (p : Point α) : Point α :=
  ⟨mode.coordinate here.x p.x, mode.coordinate here.y p.y⟩

/-- The first control point of a smooth curve of a family: the last control point of the step before,
mirrored through the current point, if that is a curve of the family, and the current point otherwise. -/
def ExplicitStep.mirrored (here : Point α) (before : Option (ExplicitStep α))
    (family : CurveFamily) : Point α :=
  match before.bind (lastControl? family) with
  | some control => here.reflect control
  | none => here

/-- What a step says in a mode, at the current point `here` and behind the explicit step `before`. Of
an arc only the end is a place, and not the radii and the rotation. -/
def Step.explicit (here : Point α) (before : Option (ExplicitStep α)) (mode : CoordinateMode) :
    Step α → ExplicitStep α
  | .move stop => .move (mode.point here stop)
  | .line stop => .line (mode.point here stop)
  | .horizontal x => .line ⟨mode.coordinate here.x x, here.y⟩
  | .vertical y => .line ⟨here.x, mode.coordinate here.y y⟩
  | .cubic control₁ control₂ stop =>
    .cubic (mode.point here control₁) (mode.point here control₂) (mode.point here stop)
  | .smoothCubic control₂ stop =>
    .cubic (ExplicitStep.mirrored here before .cubic) (mode.point here control₂)
      (mode.point here stop)
  | .quadratic control stop => .quadratic (mode.point here control) (mode.point here stop)
  | .smoothQuadratic stop =>
    .quadratic (ExplicitStep.mirrored here before .quadratic) (mode.point here stop)
  | .arc rx ry degrees large sweep stop =>
    .arc rx ry degrees large sweep (mode.point here stop)
  | .close => .close

/-- The explicit form of steps that are taken from the current point `here`, in a subpath that started
at `start`, and behind the explicit step `before`. -/
def explicitForm (here start : Point α) (before : Option (ExplicitStep α)) :
    List (CoordinateMode × Step α) → List (ExplicitStep α)
  | [] => []
  | (mode, step) :: steps =>
    let first := step.explicit here before mode
    first :: explicitForm (first.target start) (first.startBehind start) (some first) steps

/-- The explicit steps as steps of path data. -/
def ExplicitStep.steps (form : List (ExplicitStep α)) : List (CoordinateMode × Step α) :=
  form.map fun first => (.absolute, first.step)

namespace PathState

/-- The explicit step before says what is remembered of the last control point. -/
def Recalls (state : PathState α) (before : Option (ExplicitStep α)) : Prop :=
  ∀ family, state.impliedControl family = ExplicitStep.mirrored state.current before family

theorem resolve_eq (state : PathState α) (mode : CoordinateMode) (p : Point α) :
    state.resolve mode p = mode.point state.current p := by
  cases mode <;> rfl

/-- A step that is not smooth, or that is taken where the step before is recalled, does what its
explicit form does. -/
theorem advance_explicit {state : PathState α} {before : Option (ExplicitStep α)}
    {step : Step α} (h : state.Recalls before ∨ ∃ stop, step = .move stop)
    (mode : CoordinateMode) :
    state.advance .absolute (step.explicit state.current before mode).step =
      state.advance mode step := by
  cases step with
  | smoothCubic control₂ stop =>
    obtain hrecalls | ⟨_, hmove⟩ := h
    · simp only [advance, Step.explicit, ExplicitStep.step, hrecalls .cubic, resolve_eq]
      rfl
    · cases hmove
  | smoothQuadratic stop =>
    obtain hrecalls | ⟨_, hmove⟩ := h
    · simp only [advance, Step.explicit, ExplicitStep.step, hrecalls .quadratic, resolve_eq]
      rfl
    · cases hmove
  | horizontal x => cases mode <;> rfl
  | vertical y => cases mode <;> rfl
  | close => rfl
  | _ =>
    simp only [advance, Step.explicit, ExplicitStep.step, resolve_eq]
    rfl

/-- The state behind an explicit step. -/
theorem advance_step (state : PathState α) (first : ExplicitStep α) :
    (state.advance .absolute first.step).2.current = first.target state.start ∧
      (state.advance .absolute first.step).2.start = first.startBehind state.start ∧
      (state.advance .absolute first.step).2.Recalls (some first) := by
  refine ⟨?_, ?_, ?_⟩
  · cases first <;> rfl
  · cases first <;> rfl
  · intro family
    cases first <;> cases family <;> rfl

/-- Steps do what their explicit form does, where the step before is recalled. -/
theorem take_explicitForm_of_recalls {state : PathState α} {before : Option (ExplicitStep α)}
    (h : state.Recalls before) (steps : List (CoordinateMode × Step α)) :
    state.take (ExplicitStep.steps (explicitForm state.current state.start before steps)) =
      state.take steps := by
  induction steps generalizing state before with
  | nil => rfl
  | cons head steps ih =>
    obtain ⟨mode, step⟩ := head
    obtain ⟨hcurrent, hstart, hrecalls⟩ :=
      state.advance_step (step.explicit state.current before mode)
    have hstep : state.advance .absolute (step.explicit state.current before mode).step =
        state.advance mode step := advance_explicit (.inl h) mode
    -- The explicit step is recalled in the state it leads to, whatever was recalled before it.
    have hlater := ih hrecalls
    rw [hcurrent, hstart] at hlater
    simp only [explicitForm, ExplicitStep.steps, List.map_cons, take] at hlater ⊢
    rw [hlater, hstep]

/-- Steps that begin with a move do what their explicit form does, whatever was before. -/
theorem take_explicitForm_of_move (state : PathState α) (mode : CoordinateMode) (stop : Point α)
    (steps : List (CoordinateMode × Step α)) :
    state.take (ExplicitStep.steps
        (explicitForm state.current state.start none ((mode, .move stop) :: steps))) =
      state.take ((mode, .move stop) :: steps) := by
  obtain ⟨hcurrent, hstart, hrecalls⟩ :=
    state.advance_step (Step.explicit state.current none mode (.move stop))
  have hstep : state.advance .absolute (Step.explicit state.current none mode (.move stop)).step =
      state.advance mode (.move stop) := advance_explicit (.inr ⟨stop, rfl⟩) mode
  have hlater := take_explicitForm_of_recalls hrecalls steps
  rw [hcurrent, hstart] at hlater
  simp only [explicitForm, ExplicitStep.steps, List.map_cons, take] at hlater ⊢
  rw [hlater, hstep]

/-- Path data that is followed to the end gives the segments of its explicit form, and leads to the
same state, in whatever state it is begun. Any data that asks for the steps of the explicit form is
followed in the same way. -/
theorem run_eq_take_explicitForm {state last : PathState α} {data : List Char}
    {segments : List (Segment α)} (h : state.run data = (.ok segments, last)) :
    ∃ steps, PathInstruction.stepsOfData data = .ok steps ∧
      state.take (ExplicitStep.steps (explicitForm state.current state.start none steps)) =
        (segments, last) ∧
      ∀ other, PathInstruction.stepsOfData other =
          .ok (ExplicitStep.steps (explicitForm state.current state.start none steps)) →
        state.run other = state.run data := by
  obtain ⟨steps, hsteps, hmove, htake⟩ := run_eq_ok_iff.1 h
  have hform : state.take
      (ExplicitStep.steps (explicitForm state.current state.start none steps)) =
        (segments, last) := by
    cases steps with
    | nil => exact htake
    | cons first steps =>
      obtain ⟨mode, step⟩ := first
      obtain ⟨stop, rfl⟩ := Step.eq_move_of_command (hmove _ rfl)
      rw [take_explicitForm_of_move, htake]
  refine ⟨steps, hsteps, hform, ?_⟩
  intro other hother
  rw [h]
  refine run_eq_ok_iff.2 ⟨_, hother, ?_, hform⟩
  cases steps with
  | nil => simp [explicitForm, ExplicitStep.steps]
  | cons first steps =>
    obtain ⟨mode, step⟩ := first
    obtain ⟨stop, rfl⟩ := Step.eq_move_of_command (hmove _ rfl)
    simp [explicitForm, ExplicitStep.steps, Step.explicit, ExplicitStep.step, Step.command]

/-- A chain of smooth quadratic curves, a smooth cubic curve behind it and another behind the closing of
the subpath, and a relative move. -/
theorem run_eq_take_explicitForm_smooth :
    let state : PathState Float := ⟨⟨7, 8⟩, ⟨9, 9⟩, some (.cubic, ⟨1, 1⟩)⟩
    let data := "m1 2q1 1 2 0t2 0t1 1s3 0 4 4zS1 2 3 4m1 1h5".toList
    let form : List (ExplicitStep Float) :=
      [.move ⟨8, 10⟩, .quadratic ⟨9, 11⟩ ⟨10, 10⟩, .quadratic ⟨11, 9⟩ ⟨12, 10⟩,
        .quadratic ⟨13, 11⟩ ⟨13, 11⟩, .cubic ⟨13, 11⟩ ⟨16, 11⟩ ⟨17, 15⟩, .close,
        .cubic ⟨8, 10⟩ ⟨1, 2⟩ ⟨3, 4⟩, .move ⟨4, 5⟩, .line ⟨9, 5⟩]
    let segments := (state.take (ExplicitStep.steps form)).1
    let last : PathState Float := ⟨⟨9, 5⟩, ⟨4, 5⟩, none⟩
    state.run data = (.ok segments, last) ∧
      ∃ steps, PathInstruction.stepsOfData data = .ok steps ∧
        explicitForm state.current state.start none steps = form ∧
        state.take (ExplicitStep.steps (explicitForm state.current state.start none steps)) =
          (segments, last) := by
  intro state data form segments last
  have hrun : state.run data = (.ok segments, last) := by decide +kernel
  obtain ⟨steps, hsteps, htake, -⟩ := run_eq_take_explicitForm hrun
  refine ⟨hrun, steps, hsteps, ?_, htake⟩
  have hform : (PathInstruction.stepsOfData data).map
      (explicitForm state.current state.start none) = .ok form := by decide +kernel
  rw [hsteps] at hform
  exact Except.ok.inj hform

end PathState

end PenPlot
