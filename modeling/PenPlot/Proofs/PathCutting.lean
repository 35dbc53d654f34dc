import PenPlot.Proofs.Cursors
import PenPlot.Proofs.PathGrammar

/-!
# Path data by position

Path data is cut at its command letters, which are bytes. The arguments of an instruction are read with a
cursor into groups, and only complete groups are followed. Which arguments of a group a command uses is
written with indices, so it has to be shown that a group that was read for a command has an argument of the
right kind at each of them; `ByPosition.segment_eq` says this for a group that asks for a step. The closing
of a subpath has no groups, and no segment is asked for its sake.
-/

namespace PenPlot

open Text

namespace ByPosition

/-- The letters of all commands. -/
def commandLetters : List Char :=
  ['M', 'm', 'V', 'v', 'H', 'h', 'L', 'l', 'A', 'a', 'Q', 'q', 'T', 't', 'C', 'c', 'S', 's', 'Z', 'z']

/-- The instructions of a text that begins with a command letter. -/
def readInstructions (text : List Char) : Option (Except PathFlaw (List PathInstruction)) :=
  match text with
  | [] => some (.ok [])
  | letter :: behind =>
    match commandOfLetter? letter with
    | none => some (.error (.missingCommand text))
    | some (command, mode) =>
      match _hbody : from? 1 (letter :: behind) with
      | none => none
      | some body =>
        let stop := (position? (fun c => commandLetters.contains c) body).getD (byteLength body)
        match _hrest : from? stop body with
        | none => none
        | some rest => do
          let arguments ← upTo? stop body
          return (← readInstructions rest).map (⟨command, mode, arguments⟩ :: ·)
termination_by byteLength text
decreasing_by
  rw [byteLength_of_from? _hbody, byteLength_of_from? _hrest]
  omega

section

variable {α : Type}

/-- The number at an index of a group. -/
def number? (group : List (Argument α)) (i : Nat) : Option α :=
  match group[i]? with
  | some (.number value) => some value
  | _ => none

/-- The flag at an index of a group. -/
def flag? (group : List (Argument α)) (i : Nat) : Option Bool :=
  match group[i]? with
  | some (.flag value) => some value
  | _ => none

/-- The arguments of a group from an index on. -/
def groupFrom? (n : Nat) (group : List (Argument α)) : Option (List (Argument α)) :=
  if n ≤ group.length then some (group.drop n) else none

variable [Scalar α]

/-- The group of arguments for slots behind a cursor. -/
def group (instruction : PathInstruction) :
    List Slot → Cursor → Option (Except PathFlaw (List (Argument α) × Cursor))
  | [], cursor => some (.ok ([], cursor))
  | slot :: slots, cursor => do
    match ← cursor.next slot with
    | (.error flaw, _) => return .error (.arguments flaw)
    | (.ok none, _) =>
      return .error (.incompleteGroup instruction.command.arity instruction.arguments)
    | (.ok (some argument), cursor) =>
      return (← group instruction slots cursor).map fun (arguments, cursor) =>
        (argument :: arguments, cursor)

section

variable {instruction : PathInstruction} {slot : Slot} {slots : List Slot} {cursor after : Cursor}
  {arguments : List (Argument α)}

/-- A group that is read whole is an argument for the first slot and a group for the others. -/
theorem exists_of_group
    (h : group instruction (slot :: slots) cursor = some (.ok (arguments, after))) :
    ∃ (argument : Argument α) (next : Cursor) (later : List (Argument α)),
      cursor.next slot = some (.ok (some argument), next) ∧
        group instruction slots next = some (.ok (later, after)) := by
  obtain ⟨⟨found, next⟩, hnext, h⟩ := Option.bind_eq_some_iff.1 h
  rcases found with flaw | (_ | argument)
  · cases h
  · cases h
  · obtain ⟨found, hlater, h⟩ := Option.bind_eq_some_iff.1 h
    rcases found with flaw | ⟨later, last⟩
    · cases h
    · cases h
      exact ⟨argument, next, later, hnext, hlater⟩

theorem left_group_le (h : group instruction slots cursor = some (.ok (arguments, after))) :
    after.left ≤ cursor.left := by
  induction slots generalizing cursor arguments with
  | nil =>
    cases h
    exact Nat.le_refl _
  | cons slot slots ih =>
    obtain ⟨_, next, _, hnext, hlater⟩ := exists_of_group h
    exact Nat.le_trans (ih hlater) (Nat.le_of_lt (Cursor.left_next_lt hnext))

theorem left_group_lt
    (h : group instruction (slot :: slots) cursor = some (.ok (arguments, after))) :
    after.left < cursor.left := by
  obtain ⟨_, next, _, hnext, hlater⟩ := exists_of_group h
  exact Nat.lt_of_le_of_lt (left_group_le hlater) (Cursor.left_next_lt hnext)

end

/-- The groups of arguments behind a cursor for a list of slots. There is no answer for no slots: their
groups would be read without end. -/
def groups (instruction : PathInstruction) (slots : List Slot) (cursor : Cursor) :
    Option (Except PathFlaw (List (List (Argument α)))) :=
  match slots with
  | [] => none
  | slot :: slots =>
    match _hskip : cursor.isExhausted with
    | none => none
    | some (true, _) => some (.ok [])
    | some (false, next) =>
      match _hgroup : group (α := α) instruction (slot :: slots) next with
      | none => none
      | some (.error flaw) => some (.error flaw)
      | some (.ok (arguments, after)) =>
        (groups instruction (slot :: slots) after).map fun later => later.map (arguments :: ·)
termination_by cursor.left
decreasing_by
  exact Nat.lt_of_lt_of_le (left_group_lt _hgroup) (Cursor.left_isExhausted_le _hskip)

/-- The point whose coordinates stand at an index of a group and behind it. -/
def point (state : PathState α) (mode : CoordinateMode) (group : List (Argument α)) (i : Nat) :
    Option (Point α) := do
  return state.resolve mode ⟨← number? group i, ← number? group (i + 1)⟩

/-- The control point that a curve begins with, and the arguments behind it: the control point is implied,
or it is written at the front of the group. -/
def firstControl (state : PathState α) (mode : CoordinateMode) (family : CurveFamily) (smooth : Bool)
    (group : List (Argument α)) : Option (Point α × List (Argument α)) := do
  if smooth then return (state.impliedControl family, group)
  else return (← point state mode group 0, ← groupFrom? 2 group)

/-- The segment of the group with a number of groups before it, and the state behind it. -/
def segment (state : PathState α) (command : PathCommand) (mode : CoordinateMode) (index : Nat)
    (group : List (Argument α)) : Option (Segment α × PathState α) := do
  let here := state.current
  let lineTo (stop : Point α) : Segment α × PathState α :=
    (.line here stop, { state with current := stop, control := none })
  match command with
  | .moveTo =>
    let stop ← point state mode group 0
    if index = 0 then return (.move stop, ⟨stop, stop, none⟩) else return lineTo stop
  | .lineTo => return lineTo (← point state mode group 0)
  | .horizontalLineTo =>
    let x ← number? group 0
    match mode with
    | .absolute => return lineTo ⟨x, here.y⟩
    | .relative => return lineTo ⟨here.x + x, here.y⟩
  | .verticalLineTo =>
    let y ← number? group 0
    match mode with
    | .absolute => return lineTo ⟨here.x, y⟩
    | .relative => return lineTo ⟨here.x, here.y + y⟩
  | .cubicTo smooth =>
    let (control₁, rest) ← firstControl state mode .cubic smooth group
    let control₂ ← point state mode rest 0
    let stop ← point state mode rest 2
    return (.cubic here control₁ control₂ stop,
      { state with current := stop, control := some (.cubic, control₂) })
  | .quadraticTo smooth =>
    let (control, rest) ← firstControl state mode .quadratic smooth group
    let stop ← point state mode rest 0
    return (.quadratic here control stop,
      { state with current := stop, control := some (.quadratic, control) })
  | .arcTo =>
    let stop ← point state mode group 5
    let rx ← number? group 0
    let ry ← number? group 1
    let degrees ← number? group 2
    let large ← flag? group 3
    let sweep ← flag? group 4
    return (.arc here { rx, ry, rotation := Scalar.ofDegrees degrees, large, sweep, stop },
      { state with current := stop, control := none })
  | .closePath => none

/-- The segments of groups with a number of groups before them, and the state behind them. -/
def segments (command : PathCommand) (mode : CoordinateMode) :
    PathState α → Nat → List (List (Argument α)) → Option (List (Segment α) × PathState α)
  | state, _, [] => some ([], state)
  | state, index, group :: groups => do
    let (first, next) ← segment state command mode index group
    let (later, last) ← segments command mode next (index + 1) groups
    return (first :: later, last)

/-- The segments of an instruction, and the state behind it. -/
def apply (state : PathState α) (instruction : PathInstruction) :
    Option (Except PathFlaw (List (Segment α)) × PathState α) := do
  if instruction.command = .closePath then
    if instruction.arguments.all isSeparator then
      return (.ok [.close state.current state.start],
        { state with current := state.start, control := none })
    else return (.error (.closeArguments instruction.arguments), state)
  else
    match ← groups instruction instruction.command.slots (Cursor.start instruction.arguments) with
    | .error flaw => return (.error flaw, state)
    | .ok [] => return (.error (.missingArguments instruction.command.arity), state)
    | .ok (first :: later) =>
      let (segments, last) ← segments instruction.command instruction.mode state 0 (first :: later)
      return (.ok segments, last)

/-- The segments of instructions followed one behind the other, and the state behind the last that can be
followed. -/
def follow : PathState α → List PathInstruction →
    Option (Except PathFlaw (List (Segment α)) × PathState α)
  | state, [] => some (.ok [], state)
  | state, instruction :: instructions => do
    match ← apply state instruction with
    | (.error flaw, next) => return (.error flaw, next)
    | (.ok segments, next) =>
      let (later, last) ← follow next instructions
      return (later.map (segments ++ ·), last)

/-- The segments of path data, and the state behind the last instruction that can be followed. -/
def run (state : PathState α) (data : List Char) :
    Option (Except PathFlaw (List (Segment α)) × PathState α) := do
  match ← readInstructions (skipSeparators data) with
  | .error flaw => return (.error flaw, state)
  | .ok [] => return (.ok [], state)
  | .ok (first :: later) =>
    if first.command = .moveTo then follow state (first :: later)
    else return (.error (.missingMove first.command), state)

end

end ByPosition

/-! ## Instructions -/

namespace PathInstruction

/-- The text is cut before its first command letter. -/
theorem split_eq (text : List Char) :
    split text = (text.takeWhile fun c => (commandOfLetter? c).isNone,
      (split (text.dropWhile fun c => (commandOfLetter? c).isNone)).2) ∧
      (split (text.dropWhile fun c => (commandOfLetter? c).isNone)).1 = [] := by
  induction text with
  | nil => exact ⟨rfl, rfl⟩
  | cons c text ih =>
    cases hletter : commandOfLetter? c with
    | some found => simp [split, hletter]
    | none =>
      simp only [split, hletter, Option.isNone_none, List.takeWhile_cons_of_pos,
        List.dropWhile_cons_of_pos]
      exact ⟨congrArg (fun found => (c :: found.1, found.2)) ih.1, ih.2⟩

end PathInstruction

namespace ByPosition

theorem contains_commandLetters (c : Char) :
    commandLetters.contains c = (commandOfLetter? c).isSome := by
  have hall : (commandLetters.all fun c => (commandOfLetter? c).isSome) = true := by decide
  rw [Bool.eq_iff_iff, List.contains_iff_mem]
  constructor
  · exact List.all_eq_true.1 hall c
  · intro hc
    obtain ⟨⟨command, mode⟩, hletter⟩ := Option.isSome_iff_exists.1 hc
    obtain rfl := commandOfLetter?_eq_some_iff.1 hletter
    rcases command with _ | _ | _ | _ | (_ | _) | (_ | _) | _ | _ <;> cases mode <;> decide

theorem toNat_lt_of_commandOfLetter? {c : Char} {found : PathCommand × CoordinateMode}
    (h : commandOfLetter? c = some found) : c.toNat < 128 := by
  obtain ⟨command, mode⟩ := found
  obtain rfl := commandOfLetter?_eq_some_iff.1 h
  rcases command with _ | _ | _ | _ | (_ | _) | (_ | _) | _ | _ <;> cases mode <;> decide

theorem readInstructions_of_split {text : List Char} (h : (PathInstruction.split text).1 = []) :
    readInstructions text = some (.ok (PathInstruction.split text).2) := by
  induction hlength : text.length using Nat.strongRecOn generalizing text with
  | ind length ih =>
    subst hlength
    cases text with
    | nil =>
      rw [readInstructions]
      rfl
    | cons letter body =>
      cases hletter : commandOfLetter? letter with
      | none => simp [PathInstruction.split, hletter] at h
      | some found =>
        obtain ⟨command, mode⟩ := found
        obtain ⟨hbody, hrest⟩ := PathInstruction.split_eq body
        have hbehind : from? 1 (letter :: body) = some body :=
          from?_succ (toNat_lt_of_commandOfLetter? hletter) [] body
        have hplain : (fun c => !commandLetters.contains c) =
            fun c => (commandOfLetter? c).isNone := by
          funext c
          rw [contains_commandLetters, Option.not_isSome]
        have hshorter : (body.dropWhile fun c => (commandOfLetter? c).isNone).length <
            (letter :: body).length :=
          Nat.lt_succ_of_le (List.dropWhile_sublist _).length_le
        rw [readInstructions]
        simp only [hletter]
        rw [hbehind]
        simp only
        rw [position?_getD, hplain, from?_takeWhile]
        simp only
        rw [upTo?_takeWhile, some_bind, ih _ hshorter hrest rfl, some_bind]
        simp only [PathInstruction.split, hletter]
        rw [hbody]
        rfl

theorem readInstructions_eq (data : List Char) :
    readInstructions (skipSeparators data) = some (PathInstruction.readAll data) := by
  rw [PathInstruction.readAll]
  cases hsplit : PathInstruction.split (skipSeparators data) with
  | mk before instructions =>
    cases before with
    | nil =>
      rw [readInstructions_of_split (by rw [hsplit]), hsplit]
    | cons c before =>
      cases htext : skipSeparators data with
      | nil =>
        rw [htext] at hsplit
        cases hsplit
      | cons d behind =>
        cases hletter : commandOfLetter? d with
        | some found => simp [htext, PathInstruction.split, hletter] at hsplit
        | none =>
          rw [readInstructions]
          simp only [hletter]

/-! ## Segments -/

/-- What the group with a number of groups before it is for. -/
def commandAt (command : PathCommand) (index : Nat) : PathCommand :=
  if index = 0 then command else command.following

theorem commandAt_succ (command : PathCommand) (index : Nat) :
    (commandAt command index).following = commandAt command (index + 1) := by
  rw [commandAt, commandAt, if_neg (Nat.succ_ne_zero index)]
  split
  · rfl
  · cases command <;> rfl

variable {α : Type} [Scalar α]

/-- Every index into a group that asks for a step is inside the group, and the group has an argument of
the right kind there. -/
theorem segment_eq {command : PathCommand} {index : Nat} {step : Step α}
    (hclose : command ≠ .closePath) (h : step.command = commandAt command index)
    (state : PathState α) (mode : CoordinateMode) :
    segment state command mode index step.arguments = some (state.advance mode step) := by
  -- Only behind the first group of a move the step is not one of the command itself.
  by_cases hfurther : command = .moveTo ∧ index ≠ 0
  · obtain ⟨rfl, hindex⟩ := hfurther
    obtain ⟨before, rfl⟩ := Nat.exists_eq_succ_of_ne_zero hindex
    cases step with
    | line stop => rfl
    | _ => cases h
  · have hcommand : step.command = command := by
      rw [h, commandAt]
      split
      · rfl
      · next hindex =>
        have hmove : command ≠ .moveTo := fun hmove => hfurther ⟨hmove, hindex⟩
        cases command <;> first | rfl | exact absurd rfl hmove
    subst hcommand
    cases step with
    | move stop =>
      have hindex : index = 0 := not_not.1 fun hindex => hfurther ⟨rfl, hindex⟩
      subst hindex
      rfl
    | horizontal x => cases mode <;> rfl
    | vertical y => cases mode <;> rfl
    | close => exact absurd rfl hclose
    | _ => rfl

theorem segments_eq {command : PathCommand} (hclose : command ≠ .closePath) (mode : CoordinateMode)
    {steps : List (Step α)} {index : Nat} (h : (commandAt command index).AsksFor steps)
    (state : PathState α) :
    segments command mode state index (steps.map Step.arguments) =
      some (state.advanceAll mode steps) := by
  induction steps generalizing index state with
  | nil => rfl
  | cons step steps ih =>
    obtain ⟨hcommand, hlater⟩ := h
    rw [commandAt_succ] at hlater
    rw [List.map_cons, segments, segment_eq hclose hcommand, some_bind]
    simp only
    rw [ih hlater]
    rfl

/-! ## Groups -/

/-- What is found where a group is read for slots: the same flaw, or the whole group and the cursor behind
it, or, at the end of the text, that the group is too short. -/
def GroupRead (instruction : PathInstruction) (slots : List Slot)
    (found : Option (Except PathFlaw (List (Argument α) × Cursor))) :
    Except ListFlaw (List (Argument α) × List Char) → Prop
  | .error flaw => found = some (.error (.arguments flaw))
  | .ok (arguments, rest) =>
    (arguments.length = slots.length ∧
      ∃ after : Cursor, after.At rest ∧ found = some (.ok (arguments, after))) ∨
    (arguments.length < slots.length ∧ rest = [] ∧
      found =
        some (.error (.incompleteGroup instruction.command.arity instruction.arguments)))

theorem Cursor.At.group {cursor : Cursor} {rest : List Char} (h : cursor.At rest)
    (instruction : PathInstruction) (slots : List Slot) :
    GroupRead (α := α) instruction slots (group instruction slots cursor) (readGroup slots rest) := by
  induction slots generalizing cursor rest with
  | nil => exact .inl ⟨rfl, cursor, h, rfl⟩
  | cons slot slots ih =>
    obtain ⟨after, hstep, hafter⟩ := h.next (α := α) slot
    rw [ByPosition.group, hstep, some_bind, readGroup]
    cases hgap : Text.skipGaps rest with
    | nil =>
      rw [takeNext_of_nil hgap]
      exact .inr ⟨Nat.succ_pos _, rfl, rfl⟩
    | cons c behind =>
      simp only
      cases hread : slot.read (α := α) (c :: behind) with
      | error flaw =>
        rw [takeNext_of_error hgap hread]
        rfl
      | ok found =>
        obtain ⟨argument, later⟩ := found
        rw [takeNext_of_ok hgap hread] at hafter ⊢
        have hrest := ih hafter
        simp only
        cases hgroup : readGroup (α := α) slots later with
        | error flaw =>
          rw [hgroup] at hrest
          have hfound : ByPosition.group instruction slots after =
              some (.error (.arguments flaw)) := hrest
          rw [hfound]
          rfl
        | ok found =>
          rw [hgroup] at hrest
          obtain ⟨hlength, last, hlast, hfound⟩ | ⟨hlength, hnil, hfound⟩ := hrest
          · refine .inl ⟨congrArg Nat.succ hlength, last, hlast, ?_⟩
            rw [hfound]
            rfl
          · refine .inr ⟨Nat.succ_lt_succ hlength, hnil, ?_⟩
            rw [hfound]
            rfl

/-- What is read of groups if the last must be complete as well. -/
def complete (instruction : PathInstruction) :
    Except ListFlaw (List (List (Argument α))) → Except PathFlaw (List (List (Argument α)))
  | .error flaw => .error (.arguments flaw)
  | .ok groups =>
    if ∀ group ∈ groups, group.length = instruction.command.arity then .ok groups
    else .error (.incompleteGroup instruction.command.arity instruction.arguments)

omit [Scalar α] in
theorem complete_nil (instruction : PathInstruction) :
    complete (α := α) instruction (.ok []) = .ok [] := by
  rw [complete, if_pos (List.forall_mem_nil _)]

omit [Scalar α] in
/-- A complete group in front decides nothing. -/
theorem complete_map {instruction : PathInstruction} {first : List (Argument α)}
    (h : first.length = instruction.command.arity)
    (found : Except ListFlaw (List (List (Argument α)))) :
    complete instruction (found.map (first :: ·)) = (complete instruction found).map (first :: ·) := by
  cases found with
  | error flaw => rfl
  | ok groups =>
    simp only [Except.map, complete, List.forall_mem_cons, h, true_and]
    split <;> rfl

theorem readGroup_skipGaps (slot : Slot) (slots : List Slot) (text : List Char) :
    readGroup (α := α) (slot :: slots) (skipGaps text) = readGroup (slot :: slots) text := by
  have hskip : skipGaps (skipGaps text) = skipGaps text := List.dropWhile_idempotent ..
  rw [readGroup, hskip, readGroup]

/-- No slice of the reading of groups is out of range, and the reading comes to an end. -/
theorem Cursor.At.groups {cursor : Cursor} {rest : List Char} (h : cursor.At rest)
    {instruction : PathInstruction} (hclose : instruction.command ≠ .closePath) :
    groups (α := α) instruction instruction.command.slots cursor =
      some (complete instruction (readGroups instruction.command.slots rest)) := by
  obtain ⟨slot, slots, hslots⟩ := List.exists_cons_of_ne_nil (PathCommand.slots_ne_nil hclose)
  rw [hslots]
  induction hlength : rest.length using Nat.strongRecOn generalizing cursor rest with
  | ind length ih =>
    subst hlength
    obtain ⟨after, hstep, hafter⟩ := h.isExhausted
    rw [ByPosition.groups, hstep]
    cases hgap : Text.skipGaps rest with
    | nil =>
      rw [readGroups_of_nil hgap, complete_nil]
      rfl
    | cons c behind =>
      have hgroup := hafter.group (α := α) instruction (slot :: slots)
      rw [readGroup_skipGaps] at hgroup
      rw [readGroups_of_cons hgap]
      simp only [List.isEmpty_cons]
      cases hread : readGroup (α := α) (slot :: slots) rest with
      | error flaw =>
        rw [hread] at hgroup
        have hfound : ByPosition.group instruction (slot :: slots) after =
            some (.error (.arguments flaw)) := hgroup
        rw [hfound]
        rfl
      | ok found =>
        obtain ⟨arguments, later⟩ := found
        rw [hread] at hgroup
        obtain ⟨hlength, last, hlast, hfound⟩ | ⟨hlength, hnil, hfound⟩ := hgroup
        · have harity : arguments.length = instruction.command.arity := by
            rw [hlength, PathCommand.arity, hslots]
          have hlater := ih _ (length_readGroup_lt hgap hread) hlast rfl
          rw [hfound]
          simp only [Except.bind]
          rw [complete_map harity, hlater]
          rfl
        · have hshort : ¬ ∀ group ∈ [arguments], group.length = instruction.command.arity := by
            intro hall
            have harity := hall arguments (List.mem_singleton_self _)
            rw [PathCommand.arity, hslots] at harity
            omega
          rw [hfound, hnil]
          simp only [Except.bind]
          rw [readGroups_of_nil rfl, Except.map, complete, if_neg hshort]

end ByPosition

section

variable {α : Type} [Scalar α] {command : PathCommand} {arguments : List Char}
  {groups : List (List (Argument α))}

/-- Groups that are read complete are for the slots that they are read for. -/
theorem slots_of_readGroups {slots : List Slot} (hslots : slots ≠ []) {text : List Char}
    (hlength : ∀ group ∈ groups, group.length = slots.length)
    (h : readGroups slots text = .ok groups) : ∀ group ∈ groups, group.map Argument.slot = slots := by
  obtain ⟨written, hwritten, rfl, -⟩ := (readGroups_eq_ok_iff hslots hlength).1 h
  intro group hgroup
  obtain ⟨tokens, htokens, rfl⟩ := List.mem_map.1 hgroup
  rw [List.map_map, ← hwritten tokens htokens]
  exact List.map_congr_left fun token _ => token.slot_map Literal.value

omit [Scalar α] in
theorem PathCommand.slots_following (command : PathCommand) :
    command.following.slots = command.slots := by
  cases command <;> rfl

omit [Scalar α] in
theorem exists_stepsOfGroups (hclose : command ≠ .closePath)
    (h : ∀ group ∈ groups, group.map Argument.slot = command.slots) :
    ∃ steps, stepsOfGroups command arguments groups = .ok steps := by
  induction groups generalizing command with
  | nil => exact ⟨[], rfl⟩
  | cons group groups ih =>
    obtain ⟨hgroup, hgroups⟩ := List.forall_mem_cons.1 h
    rw [← command.slots_following] at hgroups
    obtain ⟨step, hstep⟩ := Step.exists_ofGroup?_of_slots hclose hgroup
    obtain ⟨steps, hsteps⟩ := ih (PathCommand.following_ne_closePath hclose) hgroups
    refine ⟨step :: steps, ?_⟩
    rw [stepsOfGroups, hstep]
    simp only [hsteps]

omit [Scalar α] in
/-- A group that is too short or too long asks for no step. -/
theorem stepsOfGroups_of_incomplete
    (h : ¬ ∀ group ∈ groups, group.length = command.arity) :
    stepsOfGroups command arguments groups = .error (.incompleteGroup command.arity arguments) := by
  induction groups generalizing command with
  | nil => exact absurd (List.forall_mem_nil _) h
  | cons group groups ih =>
    rw [stepsOfGroups]
    cases hstep : Step.ofGroup? command group with
    | none => rfl
    | some step =>
      obtain ⟨-, rfl, rfl⟩ := Step.ofGroup?_eq_some_iff.1 hstep
      have hfirst : step.arguments.length = step.command.arity := by
        rw [PathCommand.arity, ← step.slots_arguments, List.length_map]
      have harity : step.command.following.arity = step.command.arity := by
        rw [PathCommand.arity, PathCommand.slots_following, PathCommand.arity]
      have hlater : ¬ ∀ group ∈ groups, group.length = step.command.following.arity := by
        rw [harity]
        exact fun hall => h (List.forall_mem_cons.2 ⟨hfirst, hall⟩)
      simp only [ih hlater, harity]

end

theorem PathInstruction.steps_of_ne {α : Type} [Scalar α] {instruction : PathInstruction}
    (hclose : instruction.command ≠ .closePath) :
    instruction.steps (α := α) =
      match readGroups instruction.command.slots instruction.arguments with
      | .error flaw => .error (.arguments flaw)
      | .ok [] => .error (.missingArguments instruction.command.arity)
      | .ok groups => stepsOfGroups instruction.command instruction.arguments groups := by
  obtain ⟨command, mode, arguments⟩ := instruction
  cases command with
  | closePath => exact absurd rfl hclose
  | _ => rfl

namespace ByPosition

variable {α : Type} [Scalar α]

/-- No slice of the following of an instruction is out of range, and no index is outside its group. -/
theorem apply_eq (state : PathState α) (instruction : PathInstruction) :
    apply state instruction = some
      (match instruction.steps (α := α) with
        | .error flaw => (.error flaw, state)
        | .ok steps =>
          (.ok (state.advanceAll instruction.mode steps).1,
            (state.advanceAll instruction.mode steps).2)) := by
  obtain ⟨command, mode, arguments⟩ := instruction
  rw [apply]
  by_cases hclose : command = .closePath
  · subst hclose
    rw [if_pos rfl, PathInstruction.steps]
    simp only
    split <;> rfl
  · rw [if_neg hclose, (Cursor.at_start arguments).groups hclose, some_bind,
      PathInstruction.steps_of_ne hclose]
    simp only
    cases hread : readGroups (α := α) command.slots arguments with
    | error flaw => rfl
    | ok groups =>
      cases groups with
      | nil =>
        rw [complete_nil]
        rfl
      | cons first later =>
        simp only [complete]
        by_cases hall : ∀ group ∈ first :: later, group.length = command.arity
        · have hslots := slots_of_readGroups (PathCommand.slots_ne_nil hclose) hall hread
          obtain ⟨steps, hsteps⟩ :
              ∃ steps, stepsOfGroups command arguments (first :: later) = .ok steps :=
            exists_stepsOfGroups hclose hslots
          obtain ⟨hasks, hgroups⟩ := (stepsOfGroups_eq_ok_iff hclose).1 hsteps
          have hasksAt : (commandAt command 0).AsksFor steps := hasks
          have hsegments := segments_eq hclose mode hasksAt state
          rw [hgroups] at hsegments
          rw [if_pos hall, hsteps]
          simp only
          rw [hsegments]
          rfl
        · rw [if_neg hall, stepsOfGroups_of_incomplete hall]
          rfl

theorem follow_eq (state : PathState α) (instructions : List PathInstruction) :
    follow state instructions = some (state.follow instructions) := by
  induction instructions generalizing state with
  | nil => rfl
  | cons instruction instructions ih =>
    rw [follow, apply_eq, some_bind, PathState.follow]
    cases instruction.steps (α := α) with
    | error flaw => rfl
    | ok steps =>
      simp only
      rw [ih]
      rfl

theorem run_eq (state : PathState α) (data : List Char) : run state data = some (state.run data) := by
  rw [run, readInstructions_eq, some_bind, PathState.run]
  cases PathInstruction.readAll data with
  | error flaw => rfl
  | ok instructions =>
    cases instructions with
    | nil => rfl
    | cons first later =>
      simp only
      split
      · exact follow_eq state (first :: later)
      · rfl

end ByPosition

end PenPlot
