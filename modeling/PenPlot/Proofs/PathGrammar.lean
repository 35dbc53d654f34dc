import Mathlib
import PenPlot.Proofs.Arguments
import PenPlot.Proofs.Steps
import PenPlot.Scalar.Machine

/-!
# The grammar of path data

Path data is written as commands, each a letter with the tokens of its groups behind it, and the first
command is a move. Blanks and commas may stand in front of the first letter and behind the letter of a
close. What a path is read as are the steps of the groups, with the values of the literals for
coordinates: `PathState.run_eq_ok_iff_written` says that data written in this way is followed to the end,
with one segment for each group, and that no other data is, unless it is nothing but blanks and commas.
-/

namespace PenPlot

open Text

/-! ## Steps as they are written -/

section

variable {β γ : Type}

/-- The point with other values for its coordinates. -/
def Point.map (f : β → γ) (p : Point β) : Point γ := ⟨f p.x, f p.y⟩

namespace Step

/-- The step with other values for its numbers. -/
def map (f : β → γ) : Step β → Step γ
  | move stop => move (stop.map f)
  | line stop => line (stop.map f)
  | horizontal x => horizontal (f x)
  | vertical y => vertical (f y)
  | cubic control₁ control₂ stop => cubic (control₁.map f) (control₂.map f) (stop.map f)
  | smoothCubic control₂ stop => smoothCubic (control₂.map f) (stop.map f)
  | quadratic control stop => quadratic (control.map f) (stop.map f)
  | smoothQuadratic stop => smoothQuadratic (stop.map f)
  | arc rx ry degrees large sweep stop => arc (f rx) (f ry) (f degrees) large sweep (stop.map f)
  | close => close

@[simp]
theorem command_map (f : β → γ) (step : Step β) : (step.map f).command = step.command := by
  cases step <;> rfl

@[simp]
theorem arguments_map (f : β → γ) (step : Step β) :
    (step.map f).arguments = step.arguments.map (Argument.map f) := by
  cases step <;> rfl

/-- The arguments of a step are for the slots of its command. -/
theorem slots_arguments (step : Step β) :
    step.arguments.map Argument.slot = step.command.slots := by
  cases step <;> rfl

/-- In a group for slots of which the first is one for a number, a number comes first. -/
theorem exists_number_cons {group : List (Argument β)} {slots : List Slot}
    (h : group.map Argument.slot = .number :: slots) :
    ∃ value later, group = .number value :: later ∧ later.map Argument.slot = slots := by
  obtain ⟨argument, later, rfl, hslot, hlater⟩ := List.map_eq_cons_iff.1 h
  cases argument with
  | flag value => cases hslot
  | number value => exact ⟨value, later, rfl, hlater⟩

/-- In a group for slots of which the first is one for a flag, a flag comes first. -/
theorem exists_flag_cons {group : List (Argument β)} {slots : List Slot}
    (h : group.map Argument.slot = .flag :: slots) :
    ∃ value later, group = .flag value :: later ∧ later.map Argument.slot = slots := by
  obtain ⟨argument, later, rfl, hslot, hlater⟩ := List.map_eq_cons_iff.1 h
  cases argument with
  | number value => cases hslot
  | flag value => exact ⟨value, later, rfl, hlater⟩

/-- A group for the slots of a command asks for a step. -/
theorem exists_ofGroup?_of_slots {command : PathCommand} (hclose : command ≠ .closePath)
    {group : List (Argument β)} (h : group.map Argument.slot = command.slots) :
    ∃ step, ofGroup? command group = some step := by
  -- The arguments are taken off the group one by one, each as the slot says.
  match command, h with
  | .closePath, _ => exact absurd rfl hclose
  | .horizontalLineTo, h | .verticalLineTo, h =>
    obtain ⟨_, _, rfl, h1⟩ := exists_number_cons h
    obtain rfl := List.map_eq_nil_iff.1 h1
    exact ⟨_, rfl⟩
  | .moveTo, h | .lineTo, h | .quadraticTo true, h =>
    obtain ⟨_, _, rfl, h1⟩ := exists_number_cons h
    obtain ⟨_, _, rfl, h2⟩ := exists_number_cons h1
    obtain rfl := List.map_eq_nil_iff.1 h2
    exact ⟨_, rfl⟩
  | .cubicTo true, h | .quadraticTo false, h =>
    obtain ⟨_, _, rfl, h1⟩ := exists_number_cons h
    obtain ⟨_, _, rfl, h2⟩ := exists_number_cons h1
    obtain ⟨_, _, rfl, h3⟩ := exists_number_cons h2
    obtain ⟨_, _, rfl, h4⟩ := exists_number_cons h3
    obtain rfl := List.map_eq_nil_iff.1 h4
    exact ⟨_, rfl⟩
  | .cubicTo false, h =>
    obtain ⟨_, _, rfl, h1⟩ := exists_number_cons h
    obtain ⟨_, _, rfl, h2⟩ := exists_number_cons h1
    obtain ⟨_, _, rfl, h3⟩ := exists_number_cons h2
    obtain ⟨_, _, rfl, h4⟩ := exists_number_cons h3
    obtain ⟨_, _, rfl, h5⟩ := exists_number_cons h4
    obtain ⟨_, _, rfl, h6⟩ := exists_number_cons h5
    obtain rfl := List.map_eq_nil_iff.1 h6
    exact ⟨_, rfl⟩
  | .arcTo, h =>
    obtain ⟨_, _, rfl, h1⟩ := exists_number_cons h
    obtain ⟨_, _, rfl, h2⟩ := exists_number_cons h1
    obtain ⟨_, _, rfl, h3⟩ := exists_number_cons h2
    obtain ⟨_, _, rfl, h4⟩ := exists_flag_cons h3
    obtain ⟨_, _, rfl, h5⟩ := exists_flag_cons h4
    obtain ⟨_, _, rfl, h6⟩ := exists_number_cons h5
    obtain ⟨_, _, rfl, h7⟩ := exists_number_cons h6
    obtain rfl := List.map_eq_nil_iff.1 h7
    exact ⟨_, rfl⟩

/-- Steps with the same command and the same arguments are the same. -/
theorem eq_of_arguments {first second : Step β} (hcommand : first.command = second.command)
    (harguments : first.arguments = second.arguments) : first = second := by
  by_cases hclose : first.command = .closePath
  · cases first <;> cases hclose
    cases second <;> first | rfl | cases hcommand
  · have hfirst := ofGroup?_eq_some_iff.2 ⟨hclose, rfl, rfl⟩
    have hsecond := ofGroup?_eq_some_iff.2 ⟨hclose, hcommand.symm, harguments.symm⟩
    rw [hfirst] at hsecond
    exact Option.some.inj hsecond

/-- Arguments with the values of a step are those of a step themselves. -/
theorem exists_of_map_arguments {f : β → γ} {step : Step γ} (hclose : step.command ≠ .closePath)
    {arguments : List (Argument β)} (h : arguments.map (Argument.map f) = step.arguments) :
    ∃ written : Step β, written.map f = step ∧ written.arguments = arguments := by
  have hslots : arguments.map Argument.slot = step.command.slots := by
    rw [← slots_arguments, ← h, List.map_map]
    exact List.map_congr_left fun argument _ => (argument.slot_map f).symm
  obtain ⟨written, hwritten⟩ := exists_ofGroup?_of_slots hclose hslots
  obtain ⟨-, hcommand, rfl⟩ := ofGroup?_eq_some_iff.1 hwritten
  refine ⟨written, eq_of_arguments ?_ ?_, rfl⟩
  · rw [command_map, hcommand]
  · rw [arguments_map, h]

end Step

end

/-! ## Command letters -/

/-- A small letter is the small letter of its capital. -/
theorem toLower_toUpper {c : Char} (h : c.isLower = true) : c.toUpper.toLower = c := by
  rw [Char.toLower_toUpper_eq_toLower, Char.toLower_eq_of_not_isUpper (Char.not_isUpper_of_isLower h)]

/-- The letter of a command for absolute coordinates is a capital. -/
theorem PathCommand.isUpper_letter (command : PathCommand) : command.letter.isUpper = true := by
  rcases command with _ | _ | _ | _ | (_ | _) | (_ | _) | _ | _ <;> rfl

/-- A letter stands for the command and the mode whose letter it is. -/
theorem commandOfLetter?_eq_some_iff {c : Char} {command : PathCommand} {mode : CoordinateMode} :
    commandOfLetter? c = some (command, mode) ↔ c = commandLetter command mode := by
  constructor
  · intro h
    obtain ⟨found, hfound, heq⟩ := Option.map_eq_some_iff.1 h
    obtain ⟨rfl, rfl⟩ := Prod.mk.inj heq
    have hletter : found.letter = c.toUpper := by simpa using List.find?_some hfound
    cases hlower : c.isLower with
    | true =>
      rw [if_neg (Char.not_isUpper_of_isLower hlower), commandLetter, hletter,
        toLower_toUpper hlower]
    | false =>
      rw [Char.toUpper_eq_of_not_isLower (by simp [hlower])] at hletter
      rw [← hletter, found.isUpper_letter, if_pos rfl, commandLetter]
  · rintro rfl
    rcases command with _ | _ | _ | _ | (_ | _) | (_ | _) | _ | _ <;> cases mode <;> rfl

theorem commandLetter_injective {command other : PathCommand} {mode : CoordinateMode}
    (h : commandLetter command mode = commandLetter other mode) : command = other := by
  have hcommand := commandOfLetter?_eq_some_iff.2 h
  rw [commandOfLetter?_eq_some_iff.2 rfl] at hcommand
  cases hcommand
  rfl

/-- A character that is unlike all command letters is none. -/
theorem commandOfLetter?_eq_none {p : Char → Bool}
    (hp : ∀ command mode, p (commandLetter command mode) = false) {c : Char} (hc : p c = true) :
    commandOfLetter? c = none := by
  cases h : commandOfLetter? c with
  | none => rfl
  | some found =>
    rw [commandOfLetter?_eq_some_iff.1 h, hp] at hc
    cases hc

theorem isSeparator_commandLetter (command : PathCommand) (mode : CoordinateMode) :
    isSeparator (commandLetter command mode) = false := by
  rcases command with _ | _ | _ | _ | (_ | _) | (_ | _) | _ | _ <;> cases mode <;> decide

/-- No command letter stands in the text. -/
def NoLetter (text : List Char) : Prop := ∀ c ∈ text, commandOfLetter? c = none

theorem noLetter_of_isSeparator {text : List Char} (h : ∀ c ∈ text, isSeparator c = true) :
    NoLetter text :=
  fun c hc => commandOfLetter?_eq_none isSeparator_commandLetter (h c hc)

theorem isTokenChar_commandLetter (command : PathCommand) (mode : CoordinateMode) :
    isTokenChar (commandLetter command mode) = false := by
  rcases command with _ | _ | _ | _ | (_ | _) | (_ | _) | _ | _ <;> cases mode <;> decide

/-- No command letter stands in the tokens of arguments. The exponent letter is none. -/
theorem IsTokenText.noLetter {previous : Option (Argument Literal)}
    {tokens : List (Argument Literal)} {text : List Char} (h : IsTokenText previous tokens text) :
    NoLetter text :=
  fun _ hc => commandOfLetter?_eq_none isTokenChar_commandLetter (h.isTokenChar_of_mem hc)

namespace PathInstruction

theorem split_append {before : List Char} (h : NoLetter before) (rest : List Char) :
    split (before ++ rest) = (before ++ (split rest).1, (split rest).2) := by
  induction before with
  | nil => rfl
  | cons c before ih =>
    have hc : commandOfLetter? c = none := h c (List.mem_cons_self ..)
    simp only [List.cons_append, split, hc, ih fun d hd => h d (List.mem_cons_of_mem c hd)]

/-- The instructions of a text are those that it is the text of. -/
theorem split_flatMap_text {instructions : List PathInstruction}
    (h : ∀ instruction ∈ instructions, NoLetter instruction.arguments) :
    split (instructions.flatMap PathInstruction.text) = ([], instructions) := by
  induction instructions with
  | nil => rfl
  | cons instruction instructions ih =>
    obtain ⟨command, mode, arguments⟩ := instruction
    have harguments : NoLetter arguments := h _ (List.mem_cons_self ..)
    have hletter : commandOfLetter? (commandLetter command mode) = some (command, mode) :=
      commandOfLetter?_eq_some_iff.2 rfl
    have hlater := ih fun other hother => h other (List.mem_cons_of_mem _ hother)
    rw [List.flatMap_cons, PathInstruction.text, List.cons_append]
    simp only [split, hletter, split_append harguments, hlater, List.append_nil]

/-- The text is cut at all command letters and nowhere else, and nothing is lost. -/
theorem split_spec (text : List Char) :
    text = (split text).1 ++ (split text).2.flatMap PathInstruction.text ∧ NoLetter (split text).1 ∧
      ∀ instruction ∈ (split text).2, NoLetter instruction.arguments := by
  induction text with
  | nil => exact ⟨rfl, nofun, nofun⟩
  | cons c rest ih =>
    obtain ⟨hrest, hbefore, harguments⟩ := ih
    simp only [split]
    cases hletter : commandOfLetter? c with
    | some found =>
      obtain ⟨command, mode⟩ := found
      refine ⟨?_, nofun, ?_⟩
      · rw [List.nil_append, List.flatMap_cons, PathInstruction.text,
          ← commandOfLetter?_eq_some_iff.1 hletter, List.cons_append, ← hrest]
      · rintro instruction (_ | ⟨_, hinstruction⟩)
        · exact hbefore
        · exact harguments instruction hinstruction
    | none =>
      refine ⟨congrArg (c :: ·) hrest, ?_, harguments⟩
      rintro d (_ | ⟨_, hd⟩)
      · exact hletter
      · exact hbefore d hd

/-- Data is read as instructions just if it is their text behind blanks and commas. -/
theorem readAll_eq_ok_iff {data : List Char} {instructions : List PathInstruction} :
    readAll data = .ok instructions ↔
      (∃ lead, (∀ c ∈ lead, isSeparator c = true) ∧
        data = lead ++ instructions.flatMap PathInstruction.text) ∧
        ∀ instruction ∈ instructions, NoLetter instruction.arguments := by
  constructor
  · intro h
    have hsplit := split_spec (skipSeparators data)
    simp only [readAll] at h
    split at h
    · next instructions' heq =>
      cases h
      rw [heq] at hsplit
      refine ⟨⟨data.takeWhile isSeparator, List.all_eq_true.1 List.all_takeWhile, ?_⟩, hsplit.2.2⟩
      have htext : skipSeparators data = instructions.flatMap PathInstruction.text := hsplit.1
      rw [← htext, skipSeparators, List.takeWhile_append_dropWhile]
    · cases h
  · rintro ⟨⟨lead, hlead, rfl⟩, harguments⟩
    have hskip : skipSeparators (lead ++ instructions.flatMap PathInstruction.text) =
        instructions.flatMap PathInstruction.text := by
      rw [skipSeparators, List.dropWhile_append_of_pos hlead]
      cases instructions with
      | nil => rfl
      | cons instruction instructions =>
        rw [List.flatMap_cons, PathInstruction.text, List.cons_append,
          List.dropWhile_cons_of_neg]
        rw [isSeparator_commandLetter]
        exact Bool.false_ne_true
    simp only [readAll, hskip, split_flatMap_text harguments]

end PathInstruction

/-! ## Path data as it is written -/

/-- A text is a command with its groups in a mode, of which each is written as the step it asks for. -/
inductive IsCommandText (mode : CoordinateMode) : List (Step Literal) → List Char → Prop where
  /-- A close has no groups, but blanks and commas may stand behind its letter. -/
  | close {blanks : List Char} : (∀ c ∈ blanks, isSeparator c = true) →
      IsCommandText mode [.close] (commandLetter .closePath mode :: blanks)
  /-- Any other command has at least one group. The groups behind the first are for the command that
  follows it. -/
  | groups {first : Step Literal} {further : List (Step Literal)} {arguments : List Char} :
      first.command ≠ .closePath → (∀ step ∈ further, step.command = first.command.following) →
      IsTokenText none ((first :: further).flatMap Step.arguments) arguments →
      IsCommandText mode (first :: further) (commandLetter first.command mode :: arguments)

/-- A text is commands, one behind the other. -/
inductive IsPathText : List (CoordinateMode × Step Literal) → List Char → Prop where
  /-- There are no commands. -/
  | nil : IsPathText [] []
  /-- One more command is in front. -/
  | cons {mode : CoordinateMode} {steps : List (Step Literal)}
      {later : List (CoordinateMode × Step Literal)} {text rest : List Char} :
      IsCommandText mode steps text → IsPathText later rest →
      IsPathText (steps.map (mode, ·) ++ later) (text ++ rest)

/-- Path data is written as steps, of which the first is a move. -/
structure IsPathData (steps : List (CoordinateMode × Step Literal)) (data : List Char) : Prop where
  /-- The first step is a move. -/
  move : ∃ mode stop later, steps = (mode, .move stop) :: later
  /-- The commands stand behind blanks and commas. -/
  text : ∃ lead text, (∀ c ∈ lead, isSeparator c = true) ∧ data = lead ++ text ∧ IsPathText steps text

/-! ## Commands as they are written -/

section

variable {β γ : Type} {command : PathCommand}

theorem PathCommand.asksFor_of_following_eq (h : command.following = command)
    {steps : List (Step β)} :
    command.AsksFor steps ↔ ∀ step ∈ steps, step.command = command := by
  induction steps with
  | nil => exact ⟨fun _ => nofun, fun _ => trivial⟩
  | cons step steps ih => rw [AsksFor, h, ih, List.forall_mem_cons]

/-- The first step is for the command, and all others are for the one that follows it. -/
theorem PathCommand.asksFor_cons_iff {first : Step β} {further : List (Step β)} :
    command.AsksFor (first :: further) ↔
      first.command = command ∧ ∀ step ∈ further, step.command = command.following := by
  have hfollowing : command.following.following = command.following := by cases command <;> rfl
  rw [AsksFor, asksFor_of_following_eq hfollowing]

/-- All groups of a command are for the same slots. -/
theorem PathCommand.slots_of_asksFor {steps : List (Step β)} (h : command.AsksFor steps) :
    ∀ step ∈ steps, step.command.slots = command.slots := by
  cases steps with
  | nil => exact nofun
  | cons first further =>
    obtain ⟨hfirst, hfurther⟩ := asksFor_cons_iff.1 h
    have hfollowing : command.following.slots = command.slots := by cases command <;> rfl
    rintro step (_ | ⟨_, hstep⟩)
    · rw [hfirst]
    · rw [hfurther step hstep, hfollowing]

theorem PathCommand.slots_ne_nil (h : command ≠ .closePath) : command.slots ≠ [] := by
  intro hnil
  rcases command with _ | _ | _ | _ | (_ | _) | (_ | _) | _ | _
  case closePath => exact h rfl
  all_goals cases hnil

theorem PathCommand.asksFor_map {f : β → γ} {steps : List (Step β)} :
    command.AsksFor (steps.map (Step.map f)) ↔ command.AsksFor steps := by
  induction steps generalizing command with
  | nil => exact Iff.rfl
  | cons step steps ih => rw [List.map_cons, AsksFor, AsksFor, ih, Step.command_map]

/-- Groups with the values of steps are those of steps themselves. -/
theorem Step.exists_of_map_groups {f : β → γ} {steps : List (Step γ)}
    (hclose : ∀ step ∈ steps, step.command ≠ .closePath) {groups : List (List (Argument β))}
    (h : groups.map (List.map (Argument.map f)) = steps.map Step.arguments) :
    ∃ written : List (Step β), written.map (Step.map f) = steps ∧
      written.map Step.arguments = groups := by
  induction steps generalizing groups with
  | nil => exact ⟨[], rfl, (List.map_eq_nil_iff.1 h).symm⟩
  | cons step steps ih =>
    obtain ⟨group, later, rfl, hgroup, hlater⟩ := List.map_eq_cons_iff.1 h
    obtain ⟨hstep, hsteps⟩ := List.forall_mem_cons.1 hclose
    obtain ⟨first, rfl, rfl⟩ := Step.exists_of_map_arguments hstep hgroup
    obtain ⟨further, rfl, rfl⟩ := ih hsteps hlater
    exact ⟨first :: further, rfl, rfl⟩

/-- What a command is written as says its letter and its groups. -/
theorem isCommandText_cons_iff {mode : CoordinateMode} {steps : List (Step Literal)}
    {arguments : List Char} :
    IsCommandText mode steps (commandLetter command mode :: arguments) ↔
      (command = .closePath ∧ (∀ c ∈ arguments, isSeparator c = true) ∧ steps = [.close]) ∨
        (command ≠ .closePath ∧ steps ≠ [] ∧ command.AsksFor steps ∧
          IsTokenText none (steps.flatMap Step.arguments) arguments) := by
  constructor
  · intro h
    generalize htext : commandLetter command mode :: arguments = text at h
    cases h with
    | close hblanks =>
      obtain ⟨hletter, rfl⟩ := List.cons.inj htext
      exact .inl ⟨commandLetter_injective hletter, hblanks, rfl⟩
    | groups hclose hfurther htokens =>
      obtain ⟨hletter, rfl⟩ := List.cons.inj htext
      obtain rfl := commandLetter_injective hletter
      exact .inr ⟨hclose, nofun, PathCommand.asksFor_cons_iff.2 ⟨rfl, hfurther⟩, htokens⟩
  · rintro (⟨rfl, hblanks, rfl⟩ | ⟨hclose, hne, hasks, htokens⟩)
    · exact .close hblanks
    · obtain ⟨first, further, rfl⟩ := List.exists_cons_of_ne_nil hne
      obtain ⟨rfl, hfurther⟩ := PathCommand.asksFor_cons_iff.1 hasks
      exact .groups hclose hfurther htokens

/-- Behind the letter of a command stands no other. -/
theorem IsCommandText.exists_cons {mode : CoordinateMode} {steps : List (Step Literal)}
    {text : List Char} (h : IsCommandText mode steps text) :
    ∃ command arguments, text = commandLetter command mode :: arguments ∧ NoLetter arguments := by
  cases h with
  | close hblanks => exact ⟨_, _, rfl, noLetter_of_isSeparator hblanks⟩
  | groups _ _ htokens => exact ⟨_, _, rfl, htokens.noLetter⟩

end

variable {α : Type} [Scalar α]

namespace PathInstruction

/-- An instruction asks for the steps that it is written as. -/
theorem steps_eq_ok_iff_written {instruction : PathInstruction} {steps : List (Step α)} :
    instruction.steps = .ok steps ↔
      ∃ written, written.map (Step.map Literal.value) = steps ∧
        IsCommandText instruction.mode written instruction.text := by
  obtain ⟨command, mode, arguments⟩ := instruction
  simp only [PathInstruction.text, isCommandText_cons_iff]
  by_cases hclose : command = .closePath
  · subst hclose
    rw [steps_eq_ok_iff_of_close rfl]
    constructor
    · rintro ⟨hblanks, rfl⟩
      exact ⟨[.close], rfl, .inl ⟨rfl, List.all_eq_true.1 hblanks, rfl⟩⟩
    · rintro ⟨written, rfl, ⟨-, hblanks, rfl⟩ | ⟨hclose, -⟩⟩
      · exact ⟨List.all_eq_true.2 hblanks, rfl⟩
      · exact absurd rfl hclose
  · have hslots := PathCommand.slots_ne_nil hclose
    -- The groups of steps are complete, which the reading of groups does not ensure by itself.
    have hlength : ∀ {steps : List (Step α)}, command.AsksFor steps →
        ∀ group ∈ steps.map Step.arguments, group.length = command.slots.length := by
      intro steps hasks group hgroup
      obtain ⟨step, hstep, rfl⟩ := List.mem_map.1 hgroup
      rw [← PathCommand.slots_of_asksFor hasks step hstep, ← step.slots_arguments, List.length_map]
    rw [steps_eq_ok_iff hclose]
    constructor
    · rintro ⟨hne, hasks, hgroups⟩
      obtain ⟨groups, -, hvalues, htokens⟩ :=
        (readGroups_eq_ok_iff hslots (hlength hasks)).1 hgroups
      have hopen : ∀ step ∈ steps, step.command ≠ .closePath := by
        intro step hstep hcommand
        have hnil := PathCommand.slots_of_asksFor hasks step hstep
        rw [hcommand] at hnil
        exact hslots hnil.symm
      obtain ⟨written, rfl, rfl⟩ := Step.exists_of_map_groups hopen hvalues
      refine ⟨written, rfl, .inr ⟨hclose, ?_, PathCommand.asksFor_map.1 hasks, ?_⟩⟩
      · rintro rfl
        exact hne rfl
      · rwa [List.flatMap_def]
    · rintro ⟨written, rfl, ⟨rfl, -⟩ | ⟨-, hne, hasks, htokens⟩⟩
      · exact absurd rfl hclose
      · have hasks' : command.AsksFor (written.map (Step.map (Literal.value (α := α)))) :=
          PathCommand.asksFor_map.2 hasks
        refine ⟨?_, hasks', (readGroups_eq_ok_iff hslots (hlength hasks')).2 ?_⟩
        · rwa [Ne, List.map_eq_nil_iff]
        · refine ⟨written.map Step.arguments, ?_, ?_, ?_⟩
          · intro tokens htokens
            obtain ⟨step, hstep, rfl⟩ := List.mem_map.1 htokens
            rw [step.slots_arguments, PathCommand.slots_of_asksFor hasks step hstep]
          · simp
          · rwa [← List.flatMap_def]

end PathInstruction

/-- The steps with the values of their literals for coordinates. -/
def valuesOf (steps : List (CoordinateMode × Step Literal)) : List (CoordinateMode × Step α) :=
  steps.map (Prod.map id (Step.map Literal.value))

/-- Instructions ask for the steps that they are written as. -/
theorem PathInstruction.allSteps_eq_ok_iff_written {text : List Char}
    {steps : List (CoordinateMode × Step α)} :
    (∃ instructions, text = instructions.flatMap PathInstruction.text ∧
        (∀ instruction ∈ instructions, NoLetter instruction.arguments) ∧
        allSteps instructions = .ok steps) ↔
      ∃ written, valuesOf written = steps ∧ IsPathText written text := by
  have hvalues : ∀ (mode : CoordinateMode) (own : List (Step Literal))
      (later : List (CoordinateMode × Step Literal)),
      valuesOf (α := α) (own.map (mode, ·) ++ later) =
        (own.map (Step.map Literal.value)).map (mode, ·) ++ valuesOf later := by
    intro mode own later
    simp [valuesOf]
  constructor
  · rintro ⟨instructions, rfl, -, h⟩
    induction instructions generalizing steps with
    | nil =>
      cases h
      exact ⟨[], rfl, .nil⟩
    | cons instruction instructions ih =>
      obtain ⟨own, later, hown, hlater, rfl⟩ := allSteps_cons_eq_ok_iff.1 h
      obtain ⟨written, rfl, hcommand⟩ := steps_eq_ok_iff_written.1 hown
      obtain ⟨further, rfl, hpath⟩ := ih hlater
      exact ⟨_, hvalues instruction.mode written further, .cons hcommand hpath⟩
  · rintro ⟨written, rfl, h⟩
    induction h with
    | nil => exact ⟨[], rfl, List.forall_mem_nil _, rfl⟩
    | @cons mode own later text rest hcommand _ ih =>
      obtain ⟨instructions, rfl, harguments, hall⟩ := ih
      obtain ⟨command, arguments, rfl, hown⟩ := hcommand.exists_cons
      have hsteps : (PathInstruction.mk command mode arguments).steps =
          .ok (own.map (Step.map (Literal.value (α := α)))) :=
        steps_eq_ok_iff_written.2 ⟨own, rfl, hcommand⟩
      refine ⟨⟨command, mode, arguments⟩ :: instructions, rfl, ?_, ?_⟩
      · exact List.forall_mem_cons.2 ⟨hown, harguments⟩
      · rw [hvalues]
        exact allSteps_cons_eq_ok_iff.2 ⟨_, _, hsteps, hall, rfl⟩

namespace PathState

/-- Path data is followed to the end just if it is nothing but blanks and commas, in which case there are
no segments, or written as steps that begin with a move, in which case the steps are taken one behind
the other with the values of the literals for coordinates. -/
theorem run_eq_ok_iff_written {state last : PathState α} {data : List Char}
    {segments : List (Segment α)} :
    state.run data = (.ok segments, last) ↔
      (∀ c ∈ data, isSeparator c = true) ∧ segments = [] ∧ last = state ∨
        ∃ steps, IsPathData steps data ∧ state.take (valuesOf steps) = (segments, last) := by
  rw [run_eq_ok_iff]
  constructor
  · rintro ⟨steps, hsteps, hmove, htake⟩
    simp only [PathInstruction.stepsOfData] at hsteps
    cases hread : PathInstruction.readAll data with
    | error flaw =>
      rw [hread] at hsteps
      cases hsteps
    | ok instructions =>
      rw [hread] at hsteps
      have hall : PathInstruction.allSteps instructions = .ok steps := hsteps
      obtain ⟨⟨lead, hlead, rfl⟩, harguments⟩ := PathInstruction.readAll_eq_ok_iff.1 hread
      cases instructions with
      | nil =>
        cases hall
        cases htake
        refine .inl ⟨?_, rfl, rfl⟩
        rwa [List.flatMap_nil, List.append_nil]
      | cons first later =>
        obtain ⟨step, mode, further, hcons, -⟩ := PathInstruction.exists_of_allSteps hall
        obtain ⟨written, rfl, hpath⟩ :=
          PathInstruction.allSteps_eq_ok_iff_written.1 ⟨_, rfl, harguments, hall⟩
        refine .inr ⟨written, ⟨?_, lead, _, hlead, rfl, hpath⟩, htake⟩
        obtain ⟨⟨mode', start⟩, rest, rfl, hstart, -⟩ := List.map_eq_cons_iff.1 hcons
        have hcommand : start.command = .moveTo := by
          rw [← start.command_map (Literal.value (α := α))]
          exact hmove _ rfl
        obtain ⟨stop, rfl⟩ := Step.eq_move_of_command hcommand
        exact ⟨mode', stop, rest, rfl⟩
  · rintro (⟨hblanks, rfl, rfl⟩ | ⟨written, ⟨⟨mode, stop, later, rfl⟩, lead, text, hlead, rfl,
      hpath⟩, htake⟩)
    · have hread : PathInstruction.readAll data = .ok [] :=
        PathInstruction.readAll_eq_ok_iff.2 ⟨⟨data, hblanks, by simp⟩, nofun⟩
      refine ⟨[], ?_, nofun, rfl⟩
      rw [PathInstruction.stepsOfData, hread]
      rfl
    · obtain ⟨instructions, rfl, harguments, hall⟩ :=
        (PathInstruction.allSteps_eq_ok_iff_written (α := α)).2 ⟨_, rfl, hpath⟩
      have hread : PathInstruction.readAll (lead ++ instructions.flatMap PathInstruction.text) =
          .ok instructions :=
        PathInstruction.readAll_eq_ok_iff.2 ⟨⟨lead, hlead, rfl⟩, harguments⟩
      refine ⟨_, ?_, ?_, htake⟩
      · rw [PathInstruction.stepsOfData, hread]
        exact hall
      · rintro _ ⟨⟩
        rfl

/-- Data that is written as steps is followed to the end: each step gives one segment, computed from the
values of its literals. Nothing but blanks and commas gives no segment. All other data is rejected. -/
theorem run_written (state : PathState α) (data : List Char) :
    (∀ steps, IsPathData steps data →
        state.run data = Prod.map .ok id (state.take (valuesOf steps)) ∧
          (state.take (valuesOf steps)).1.length = steps.length) ∧
      ((∀ c ∈ data, isSeparator c = true) → state.run data = (.ok [], state)) ∧
      ((∀ steps, ¬ IsPathData steps data) → (∃ c ∈ data, isSeparator c = false) →
        ∃ flaw, (state.run data).1 = .error flaw) := by
  refine ⟨?_, ?_, ?_⟩
  · intro steps hsteps
    refine ⟨run_eq_ok_iff_written.2 (.inr ⟨steps, hsteps, rfl⟩), ?_⟩
    rw [length_take, valuesOf, List.length_map]
  · intro hblanks
    exact run_eq_ok_iff_written.2 (.inl ⟨hblanks, rfl, rfl⟩)
  · rintro hsteps ⟨c, hc, hletter⟩
    cases hrun : state.run data with
    | mk result last =>
      cases result with
      | error flaw => exact ⟨flaw, rfl⟩
      | ok segments =>
        rcases run_eq_ok_iff_written.1 hrun with ⟨hblanks, -⟩ | ⟨steps, hwritten, -⟩
        · rw [hblanks c hc] at hletter
          cases hletter
        · exact absurd hwritten (hsteps steps)

/-- Two points whose coordinates touch where they may, and a close. -/
theorem run_written_touching :
    let half : Literal := ⟨none, [], some ['5'], none⟩
    let minusOne : Literal := ⟨some .minus, ['1'], none, none⟩
    let two : Literal := ⟨none, ['2'], none, some ⟨false, none, ['0']⟩⟩
    let steps : List (CoordinateMode × Step Literal) :=
      [(.absolute, .move ⟨half, half⟩), (.absolute, .line ⟨minusOne, two⟩), (.relative, .close)]
    let data := " M.5.5-1,2e0z,".toList
    IsPathData steps data ∧
      (initial (α := Float)).run data = Prod.map .ok id (initial.take (valuesOf steps)) ∧
      ((initial (α := Float)).run data).1 =
        .ok [.move ⟨0.5, 0.5⟩, .line ⟨0.5, 0.5⟩ ⟨-1, 2⟩, .close ⟨-1, 2⟩ ⟨0.5, 0.5⟩] := by
  intro half minusOne two steps data
  have hhalf : half.Valid := ⟨nofun, List.forall_mem_singleton.2 rfl, .inr nofun, nofun⟩
  have hminusOne : minusOne.Valid := ⟨List.forall_mem_singleton.2 rfl, nofun, .inl nofun, nofun⟩
  have htwo : two.Valid := by
    refine ⟨List.forall_mem_singleton.2 rfl, nofun, .inl nofun, ?_⟩
    rintro exponent ⟨⟩
    exact ⟨List.forall_mem_singleton.2 rfl, nofun⟩
  have hend : IsTokenText (some (.number two)) [] [] := .nil nofun
  have hlast : IsTokenText (some (.number minusOne)) [.number two] ([','] ++ (two.text ++ [])) :=
    .cons (List.forall_mem_singleton.2 rfl) nofun htwo hend
  have hthird : IsTokenText (some (.number half)) [.number minusOne, .number two]
      ([] ++ (minusOne.text ++ ([','] ++ (two.text ++ [])))) := by
    refine .cons nofun ?_ hminusOne hlast
    rintro - first ⟨⟩
    exact .inl ⟨.minus, rfl⟩
  have hsecond : IsTokenText (some (.number half)) [.number half, .number minusOne, .number two]
      ([] ++ (half.text ++ ([] ++ (minusOne.text ++ ([','] ++ (two.text ++ [])))))) := by
    refine .cons nofun ?_ hhalf hthird
    rintro - first ⟨⟩
    exact .inr ⟨rfl, .inl nofun⟩
  have htokens : IsTokenText none [.number half, .number half, .number minusOne, .number two]
      ([] ++ (half.text ++ ([] ++ (half.text ++ ([] ++ (minusOne.text ++
        ([','] ++ (two.text ++ [])))))))) :=
    .cons nofun (fun _ => nofun) hhalf hsecond
  have hmove : IsCommandText .absolute [.move ⟨half, half⟩, .line ⟨minusOne, two⟩]
      "M.5.5-1,2e0".toList := by
    refine .groups nofun ?_ htokens
    rintro step (_ | ⟨_, ⟨⟩⟩)
    rfl
  have hclose : IsCommandText .relative [.close] "z,".toList :=
    .close (List.forall_mem_singleton.2 rfl)
  have hsteps : IsPathData steps data :=
    ⟨⟨_, _, _, rfl⟩, [' '], "M.5.5-1,2e0z,".toList, List.forall_mem_singleton.2 rfl, rfl,
      .cons hmove (.cons hclose .nil)⟩
  refine ⟨hsteps, ((run_written initial data).1 steps hsteps).1, ?_⟩
  decide +kernel

end PathState

end PenPlot
