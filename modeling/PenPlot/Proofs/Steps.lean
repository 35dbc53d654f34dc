import PenPlot.Path.Segment

/-!
# The steps of path data

Path data is followed in two stages that do not depend on each other: the data asks for steps, whatever
the state is, and the steps are taken one behind the other, whatever instructions they come from.
`PathState.run_eq_ok_iff` takes a successful run apart in this way.
-/

namespace PenPlot

/-! ## The groups of steps -/

namespace Step

variable {α : Type}

/-- The command that asks for the step. -/
def command : Step α → PathCommand
  | move _ => .moveTo
  | line _ => .lineTo
  | horizontal _ => .horizontalLineTo
  | vertical _ => .verticalLineTo
  | cubic _ _ _ => .cubicTo false
  | smoothCubic _ _ => .cubicTo true
  | quadratic _ _ => .quadraticTo false
  | smoothQuadratic _ => .quadraticTo true
  | arc _ _ _ _ _ _ => .arcTo
  | close => .closePath

/-- The group of arguments that asks for the step. -/
def arguments : Step α → List (Argument α)
  | move p | line p | smoothQuadratic p => [.number p.x, .number p.y]
  | horizontal x => [.number x]
  | vertical y => [.number y]
  | cubic p q r =>
    [.number p.x, .number p.y, .number q.x, .number q.y, .number r.x, .number r.y]
  | smoothCubic p q | quadratic p q => [.number p.x, .number p.y, .number q.x, .number q.y]
  | arc rx ry degrees large sweep p =>
    [.number rx, .number ry, .number degrees, .flag large, .flag sweep, .number p.x, .number p.y]
  | close => []

theorem eq_move_of_command {step : Step α} (h : step.command = .moveTo) :
    ∃ stop, step = .move stop := by
  cases step with
  | move stop => exact ⟨stop, rfl⟩
  | _ => cases h

/-- A group asks for the step that it is the group of. -/
theorem ofGroup?_eq_some_iff {command : PathCommand} {group : List (Argument α)} {step : Step α} :
    ofGroup? command group = some step ↔
      command ≠ .closePath ∧ step.command = command ∧ step.arguments = group := by
  constructor
  · intro h
    unfold ofGroup? at h
    split at h
    case h_10 => cases h
    all_goals
      cases h
      exact ⟨nofun, rfl, rfl⟩
  · rintro ⟨hclose, rfl, rfl⟩
    cases step with
    | close => exact absurd rfl hclose
    | _ => rfl

end Step

/-- The first of the steps is for the command, and the others are for the one that follows it. -/
def PathCommand.AsksFor {α : Type} (command : PathCommand) : List (Step α) → Prop
  | [] => True
  | step :: steps => step.command = command ∧ command.following.AsksFor steps

variable {α : Type} [Scalar α]

omit [Scalar α] in
theorem PathCommand.following_ne_closePath {command : PathCommand} (h : command ≠ .closePath) :
    command.following ≠ .closePath := by
  cases command <;> simp_all [following]

omit [Scalar α] in
/-- The groups of a command ask for the steps that they are the groups of. -/
theorem stepsOfGroups_eq_ok_iff {command : PathCommand} (hclose : command ≠ .closePath)
    {arguments : List Char} {groups : List (List (Argument α))} {steps : List (Step α)} :
    stepsOfGroups command arguments groups = .ok steps ↔
      command.AsksFor steps ∧ steps.map Step.arguments = groups := by
  induction groups generalizing command steps with
  | nil =>
    cases steps with
    | nil => simp [stepsOfGroups, PathCommand.AsksFor]
    | cons step steps => simp [stepsOfGroups]
  | cons group groups ih =>
    have hlater := @ih command.following (PathCommand.following_ne_closePath hclose)
    simp only [stepsOfGroups]
    constructor
    · intro h
      split at h
      · cases h
      · next step hstep =>
        obtain ⟨-, hcommand, rfl⟩ := Step.ofGroup?_eq_some_iff.1 hstep
        split at h
        · cases h
        · next later hsteps =>
          cases h
          obtain ⟨hasks, rfl⟩ := hlater.1 hsteps
          exact ⟨⟨hcommand, hasks⟩, rfl⟩
    · rintro ⟨hasks, hgroups⟩
      cases steps with
      | nil => cases hgroups
      | cons step steps =>
        obtain ⟨hcommand, hasks⟩ := hasks
        obtain ⟨hgroup, hgroups⟩ := List.cons.inj hgroups
        have hstep := Step.ofGroup?_eq_some_iff.2 ⟨hclose, hcommand, hgroup⟩
        have hsteps := hlater.2 ⟨hasks, hgroups⟩
        simp only [hstep, hsteps]

namespace PathInstruction

variable {instruction : PathInstruction} {steps : List (Step α)}

/-- The closing of a subpath asks for one step, and has no arguments. -/
theorem steps_eq_ok_iff_of_close (hclose : instruction.command = .closePath) :
    instruction.steps = .ok steps ↔
      instruction.arguments.all Text.isSeparator ∧ steps = [.close] := by
  simp only [PathInstruction.steps, hclose]
  by_cases hblank : instruction.arguments.all Text.isSeparator = true
  · simp [hblank, eq_comm]
  · simp [hblank]

/-- Any other instruction asks for at least one step, and its arguments are the groups of its steps. -/
theorem steps_eq_ok_iff (hclose : instruction.command ≠ .closePath) :
    instruction.steps = .ok steps ↔
      steps ≠ [] ∧ instruction.command.AsksFor steps ∧
        readGroups instruction.command.slots instruction.arguments =
          .ok (steps.map Step.arguments) := by
  simp only [PathInstruction.steps]
  split
  · next flaw hgroups => simp [hgroups]
  · next hgroups => simp +contextual [hgroups]
  · next groups hne hgroups =>
    rw [stepsOfGroups_eq_ok_iff hclose, hgroups, Except.ok.injEq]
    constructor
    · rintro ⟨hasks, rfl⟩
      refine ⟨?_, hasks, rfl⟩
      rintro rfl
      exact hne rfl
    · rintro ⟨-, hasks, hmap⟩
      exact ⟨hasks, hmap.symm⟩

/-- An instruction asks for at least one step, and the first is for its command. -/
theorem exists_of_steps (h : instruction.steps = .ok steps) :
    ∃ first further, steps = first :: further ∧ first.command = instruction.command := by
  by_cases hclose : instruction.command = .closePath
  · obtain ⟨-, rfl⟩ := (steps_eq_ok_iff_of_close hclose).1 h
    exact ⟨.close, [], rfl, hclose.symm⟩
  · obtain ⟨hne, hasks, -⟩ := (steps_eq_ok_iff hclose).1 h
    cases steps with
    | nil => exact absurd rfl hne
    | cons first further => exact ⟨first, further, rfl, hasks.1⟩

end PathInstruction

/-! ## The steps of data -/

/-- The steps that instructions ask for, each with the mode of its instruction. -/
def PathInstruction.allSteps :
    List PathInstruction → Except PathFlaw (List (CoordinateMode × Step α))
  | [] => .ok []
  | instruction :: instructions =>
    match instruction.steps (α := α) with
    | .error flaw => .error flaw
    | .ok steps => (allSteps instructions).map (steps.map (instruction.mode, ·) ++ ·)

/-- The steps of the first instruction stand in front of those of the others. -/
theorem PathInstruction.allSteps_cons_eq_ok_iff {first : PathInstruction}
    {instructions : List PathInstruction} {steps : List (CoordinateMode × Step α)} :
    allSteps (first :: instructions) = .ok steps ↔
      ∃ own later, first.steps = .ok own ∧ allSteps instructions = .ok later ∧
        steps = own.map (first.mode, ·) ++ later := by
  rw [allSteps]
  cases first.steps (α := α) with
  | error flaw => simp
  | ok own =>
    cases allSteps (α := α) instructions with
    | error flaw => simp [Except.map]
    | ok later => simp [Except.map, eq_comm]

/-- The first step is for the command of the first instruction. -/
theorem PathInstruction.exists_of_allSteps {first : PathInstruction}
    {instructions : List PathInstruction} {steps : List (CoordinateMode × Step α)}
    (h : allSteps (first :: instructions) = .ok steps) :
    ∃ step mode later, steps = (mode, step) :: later ∧ step.command = first.command := by
  obtain ⟨own, later, hown, -, rfl⟩ := allSteps_cons_eq_ok_iff.1 h
  obtain ⟨step, further, rfl, hcommand⟩ := exists_of_steps hown
  exact ⟨step, first.mode, _, rfl, hcommand⟩

/-- The steps that path data ask for. -/
def PathInstruction.stepsOfData (data : List Char) :
    Except PathFlaw (List (CoordinateMode × Step α)) :=
  readAll data >>= allSteps

namespace PathState

/-- The segments of steps taken one behind the other, each in a mode of its own, and the state behind
them. -/
def take (state : PathState α) :
    List (CoordinateMode × Step α) → List (Segment α) × PathState α
  | [] => ([], state)
  | (mode, step) :: steps =>
    let (segment, next) := state.advance mode step
    let (segments, last) := next.take steps
    (segment :: segments, last)

theorem length_take (state : PathState α) (steps : List (CoordinateMode × Step α)) :
    (state.take steps).1.length = steps.length := by
  induction steps generalizing state with
  | nil => rfl
  | cons first steps ih => simp only [take, List.length_cons, ih]

theorem take_append (state : PathState α) (first second : List (CoordinateMode × Step α)) :
    state.take (first ++ second) =
      ((state.take first).1 ++ ((state.take first).2.take second).1,
        ((state.take first).2.take second).2) := by
  induction first generalizing state with
  | nil => rfl
  | cons head first ih => simp only [List.cons_append, take, ih]

/-- The steps of one instruction are taken in its mode. -/
theorem take_map_mode (state : PathState α) (mode : CoordinateMode) (steps : List (Step α)) :
    state.take (steps.map (mode, ·)) = state.advanceAll mode steps := by
  induction steps generalizing state with
  | nil => rfl
  | cons step steps ih => simp only [List.map_cons, take, advanceAll, ih]

/-- The segments of the first instruction stand in front of those of the others. -/
theorem follow_cons_eq_ok_iff {state last : PathState α} {first : PathInstruction}
    {instructions : List PathInstruction} {segments : List (Segment α)} :
    state.follow (first :: instructions) = (.ok segments, last) ↔
      ∃ own later, first.steps = .ok own ∧
        (state.advanceAll first.mode own).2.follow instructions = (.ok later, last) ∧
        segments = (state.advanceAll first.mode own).1 ++ later := by
  rw [follow]
  cases first.steps (α := α) with
  | error flaw => simp
  | ok own =>
    simp only [Except.ok.injEq, exists_and_left, exists_eq_left']
    obtain ⟨flaw | later, behind⟩ := (state.advanceAll first.mode own).2.follow instructions
    · simp [Except.map]
    · constructor
      · rintro ⟨⟩
        exact ⟨later, rfl, rfl⟩
      · rintro ⟨_, ⟨⟩, rfl⟩
        rfl

/-- Instructions are followed to the end by taking their steps. -/
theorem follow_eq_ok_iff {state last : PathState α} {instructions : List PathInstruction}
    {segments : List (Segment α)} :
    state.follow instructions = (.ok segments, last) ↔
      ∃ steps, PathInstruction.allSteps instructions = .ok steps ∧
        state.take steps = (segments, last) := by
  induction instructions generalizing state segments with
  | nil => simp [follow, PathInstruction.allSteps, take]
  | cons instruction instructions ih =>
    constructor
    · intro h
      obtain ⟨own, later, hown, hlater, rfl⟩ := follow_cons_eq_ok_iff.1 h
      obtain ⟨further, hfurther, htake⟩ := ih.1 hlater
      refine ⟨own.map (instruction.mode, ·) ++ further,
        PathInstruction.allSteps_cons_eq_ok_iff.2 ⟨own, further, hown, hfurther, rfl⟩, ?_⟩
      rw [take_append, take_map_mode, htake]
    · rintro ⟨steps, hsteps, htake⟩
      obtain ⟨own, further, hown, hfurther, rfl⟩ :=
        PathInstruction.allSteps_cons_eq_ok_iff.1 hsteps
      rw [take_append, take_map_mode] at htake
      obtain ⟨rfl, rfl⟩ := Prod.mk.inj htake
      exact follow_cons_eq_ok_iff.2 ⟨own, _, hown, ih.2 ⟨further, hfurther, rfl⟩, rfl⟩

/-- Path data is followed to the end just if it can be read as steps that begin with a move, if there
are any. -/
theorem run_eq_ok_iff {state last : PathState α} {data : List Char}
    {segments : List (Segment α)} :
    state.run data = (.ok segments, last) ↔
      ∃ steps, PathInstruction.stepsOfData data = .ok steps ∧
        (∀ first ∈ steps.head?, first.2.command = .moveTo) ∧
        state.take steps = (segments, last) := by
  unfold run PathInstruction.stepsOfData
  cases hread : PathInstruction.readAll data with
  | error flaw => simp [bind, Except.bind]
  | ok instructions =>
    show _ ↔ ∃ steps, PathInstruction.allSteps instructions = .ok steps ∧ _
    cases instructions with
    | nil => simp [PathInstruction.allSteps, take]
    | cons first instructions =>
      have hhead : ∀ {steps : List (CoordinateMode × Step α)},
          PathInstruction.allSteps (first :: instructions) = .ok steps →
            ((∀ head ∈ steps.head?, head.2.command = .moveTo) ↔ first.command = .moveTo) := by
        intro steps hsteps
        obtain ⟨step, mode, later, rfl, hcommand⟩ := PathInstruction.exists_of_allSteps hsteps
        simp [hcommand]
      by_cases hmove : first.command = .moveTo
      · simp only [hmove, if_true, follow_eq_ok_iff]
        constructor
        · rintro ⟨steps, hsteps, htake⟩
          exact ⟨steps, hsteps, (hhead hsteps).2 hmove, htake⟩
        · rintro ⟨steps, hsteps, -, htake⟩
          exact ⟨steps, hsteps, htake⟩
      · simp only [hmove, if_false, Prod.mk.injEq, reduceCtorEq, false_and, false_iff]
        rintro ⟨steps, hsteps, hbegins, -⟩
        exact hmove ((hhead hsteps).1 hbegins)

end PathState

end PenPlot
