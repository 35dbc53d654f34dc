import PenPlot.Proofs.PathGrammar
import PenPlot.Scalar.Machine

/-!
# Repeated groups

A command letter may stand before several groups of arguments, and then it counts for all of them,
apart from the letter of a move, which counts as that of a line from the second group on. Path data may
as well be written with a letter for every group. `PathInstruction.OneByOne` says what that means,
whatever the arguments of the single groups look like, and `PathState.run_oneByOne` that it makes no
difference: data that asks for the same groups one by one asks for the same steps, and all that is
followed are steps.
-/

namespace PenPlot

open Text

/-! ## Token texts in pieces -/

/-- The text of tokens can be cut behind each of them. -/
theorem IsTokenText.exists_append {previous : Option (Argument Literal)}
    {first second : List (Argument Literal)} {text : List Char}
    (h : IsTokenText previous (first ++ second) text) :
    ∃ piece rest, text = piece ++ rest ∧ IsTokenText previous first piece ∧
      IsTokenText none second rest := by
  induction first generalizing previous text with
  | nil =>
    refine ⟨[], text, rfl, .nil nofun, ?_⟩
    cases h with
    | nil hgap => exact .nil hgap
    | cons hgap _ hvalid hlater => exact .cons hgap (fun _ => nofun) hvalid hlater
  | cons token first ih =>
    cases h with
    | @cons _ _ _ gap behind hgap htouch hvalid hlater =>
      obtain ⟨piece, rest, rfl, hpiece, hrest⟩ := ih hlater
      exact ⟨gap ++ (token.text ++ piece), rest, by simp, .cons hgap htouch hvalid hpiece, hrest⟩

variable {α : Type} [Scalar α]

/-! ## One group for each letter -/

namespace PathInstruction

/-- The instructions have one group each. The first is for the command, and the others are for the same
command again, or for lines if it is a move. -/
inductive SaysGroups (mode : CoordinateMode) :
    PathCommand → List (List (Argument α)) → List PathInstruction → Prop where
  | nil {command : PathCommand} : SaysGroups mode command [] []
  | cons {command : PathCommand} {arguments : List Char} {group : List (Argument α)}
      {groups : List (List (Argument α))} {singles : List PathInstruction} :
      readGroups command.slots arguments = .ok [group] →
      SaysGroups mode (if command = .moveTo then .lineTo else command) groups singles →
      SaysGroups mode command (group :: groups) (⟨command, mode, arguments⟩ :: singles)

variable (α) in
/-- The second instructions are the first with one group each. -/
inductive OneByOne : List PathInstruction → List PathInstruction → Prop where
  | nil : OneByOne [] []
  /-- The closing of a subpath has no groups and remains as it is. -/
  | close {instruction : PathInstruction} {instructions singles : List PathInstruction} :
      instruction.command = .closePath → OneByOne instructions singles →
      OneByOne (instruction :: instructions) (instruction :: singles)
  /-- Any other instruction is written with its groups one by one. -/
  | groups {instruction : PathInstruction} {instructions own singles : List PathInstruction}
      {groups : List (List (Argument α))} :
      instruction.command ≠ .closePath →
      readGroups instruction.command.slots instruction.arguments = .ok groups →
      SaysGroups instruction.mode instruction.command groups own →
      OneByOne instructions singles →
      OneByOne (instruction :: instructions) (own ++ singles)

theorem allSteps_append {first second : List PathInstruction}
    {own later : List (CoordinateMode × Step α)} (hfirst : allSteps first = .ok own)
    (hsecond : allSteps second = .ok later) : allSteps (first ++ second) = .ok (own ++ later) := by
  induction first generalizing own with
  | nil =>
    cases hfirst
    exact hsecond
  | cons instruction first ih =>
    obtain ⟨steps, further, hsteps, hfurther, rfl⟩ := allSteps_cons_eq_ok_iff.1 hfirst
    refine allSteps_cons_eq_ok_iff.2 ⟨steps, further ++ later, hsteps, ih hfurther, ?_⟩
    rw [List.append_assoc]

/-- Groups that are said one by one ask for the steps that they ask for together. -/
theorem SaysGroups.allSteps {mode : CoordinateMode} {command : PathCommand}
    {singles : List PathInstruction} {steps : List (Step α)} (hclose : command ≠ .closePath)
    (hasks : command.AsksFor steps)
    (h : SaysGroups mode command (steps.map Step.arguments) singles) :
    allSteps singles = .ok (steps.map (mode, ·)) := by
  induction steps generalizing command singles with
  | nil =>
    cases h
    rfl
  | cons step steps ih =>
    obtain ⟨hstep, hlater⟩ := hasks
    have hfollowing : command.following = if command = .moveTo then .lineTo else command := by
      cases command <;> rfl
    cases h with
    | @cons _ arguments _ _ singles hgroup hothers =>
      rw [← hfollowing] at hothers
      have hfurther := ih (PathCommand.following_ne_closePath hclose) hlater hothers
      have hown : (PathInstruction.mk command mode arguments).steps = .ok [step] :=
        (steps_eq_ok_iff hclose).2 ⟨nofun, ⟨hstep, trivial⟩, hgroup⟩
      exact allSteps_cons_eq_ok_iff.2 ⟨[step], steps.map (mode, ·), hown, hfurther, rfl⟩

/-- Instructions with one group each ask for the same steps. -/
theorem OneByOne.allSteps {instructions singles : List PathInstruction}
    (h : OneByOne α instructions singles) {steps : List (CoordinateMode × Step α)}
    (hsteps : allSteps instructions = .ok steps) : allSteps singles = .ok steps := by
  induction h generalizing steps with
  | nil => exact hsteps
  | close _ _ ih =>
    obtain ⟨own, later, hown, hlater, rfl⟩ := allSteps_cons_eq_ok_iff.1 hsteps
    exact allSteps_cons_eq_ok_iff.2 ⟨own, later, hown, ih hlater, rfl⟩
  | groups hclose hgroups hsplit _ ih =>
    obtain ⟨own, later, hown, hlater, rfl⟩ := allSteps_cons_eq_ok_iff.1 hsteps
    obtain ⟨-, hasks, hread⟩ := (steps_eq_ok_iff hclose).1 hown
    rw [hread] at hgroups
    cases hgroups
    exact allSteps_append (hsplit.allSteps hclose hasks) (ih hlater)

/-! ## Cutting the arguments -/

/-- The text but for its command letters. -/
def withoutLetters (text : List Char) : List Char :=
  text.filter fun c => (commandOfLetter? c).isNone

theorem withoutLetters_append (text rest : List Char) :
    withoutLetters (text ++ rest) = withoutLetters text ++ withoutLetters rest :=
  List.filter_append ..

theorem withoutLetters_eq_self {text : List Char} (h : NoLetter text) :
    withoutLetters text = text := by
  refine List.filter_eq_self.2 ?_
  intro c hc
  rw [h c hc, Option.isNone_none]

/-- But for the letters, the text of instructions is that of their arguments. -/
theorem withoutLetters_flatMap_text {instructions : List PathInstruction}
    (h : ∀ instruction ∈ instructions, NoLetter instruction.arguments) :
    withoutLetters (instructions.flatMap text) =
      instructions.flatMap PathInstruction.arguments := by
  induction instructions with
  | nil => rfl
  | cons instruction instructions ih =>
    obtain ⟨hown, hothers⟩ := List.forall_mem_cons.1 h
    have hletter :
        commandOfLetter? (commandLetter instruction.command instruction.mode) ≠ none := by
      rw [commandOfLetter?_eq_some_iff.2 rfl]
      nofun
    have htext : withoutLetters instruction.text = instruction.arguments := by
      rw [withoutLetters, text, List.filter_cons_of_neg (by simpa using hletter)]
      exact withoutLetters_eq_self hown
    rw [List.flatMap_cons, List.flatMap_cons, withoutLetters_append, htext, ih hothers]

/-- The text of groups is cut into one text for each group, and nothing of it is lost. -/
theorem exists_saysGroups (mode : CoordinateMode) {command : PathCommand}
    (hclose : command ≠ .closePath) {written : List (List (Argument Literal))}
    (hwritten : written ≠ [])
    (hslots : ∀ tokens ∈ written, tokens.map Argument.slot = command.slots) {text : List Char}
    (htext : IsTokenText none written.flatten text) :
    ∃ singles, SaysGroups (α := α) mode command
        (written.map (List.map (Argument.map Literal.value))) singles ∧
      (∀ single ∈ singles, NoLetter single.arguments) ∧
      singles.flatMap PathInstruction.arguments = text := by
  induction written generalizing command text with
  | nil => exact absurd rfl hwritten
  | cons tokens written ih =>
    obtain ⟨hown, hothers⟩ := List.forall_mem_cons.1 hslots
    have hlength : ∀ group ∈ [tokens.map (Argument.map (Literal.value (α := α)))],
        group.length = command.slots.length := by
      intro group hgroup
      rw [List.mem_singleton.1 hgroup, List.length_map, ← hown, List.length_map]
    have hgroup : ∀ {piece : List Char}, IsTokenText none tokens piece →
        readGroups command.slots piece =
          .ok [tokens.map (Argument.map (Literal.value (α := α)))] := by
      intro piece hpiece
      refine (readGroups_eq_ok_iff (PathCommand.slots_ne_nil hclose) hlength).2 ⟨[tokens], ?_, rfl, ?_⟩
      · exact List.forall_mem_singleton.2 hown
      · rwa [List.flatten_singleton]
    by_cases hlast : written = []
    · -- What is behind the last group is part of its text.
      subst hlast
      rw [List.flatten_singleton] at htext
      exact ⟨[⟨command, mode, text⟩], .cons (hgroup htext) .nil,
        List.forall_mem_singleton.2 htext.noLetter, List.flatMap_singleton ..⟩
    · rw [List.flatten_cons] at htext
      obtain ⟨piece, rest, rfl, hpiece, hrest⟩ := htext.exists_append
      have hnext : (if command = .moveTo then .lineTo else command) ≠ PathCommand.closePath ∧
          (if command = .moveTo then .lineTo else command).slots = command.slots := by
        split
        · next h => exact ⟨nofun, by rw [h]; rfl⟩
        · exact ⟨hclose, rfl⟩
      rw [← hnext.2] at hothers
      obtain ⟨singles, hsplit, hletters, hall⟩ := ih hnext.1 hlast hothers hrest
      exact ⟨⟨command, mode, piece⟩ :: singles, .cons (hgroup hpiece) hsplit,
        List.forall_mem_cons.2 ⟨hpiece.noLetter, hletters⟩, by rw [List.flatMap_cons, hall]⟩

/-- Instructions that ask for steps can be written with one group each, by letters put in. -/
theorem exists_oneByOne {instructions : List PathInstruction}
    (hletters : ∀ instruction ∈ instructions, NoLetter instruction.arguments)
    {steps : List (CoordinateMode × Step α)} (hsteps : allSteps instructions = .ok steps) :
    ∃ singles, OneByOne α instructions singles ∧
      (∀ single ∈ singles, NoLetter single.arguments) ∧
      singles.flatMap PathInstruction.arguments =
        instructions.flatMap PathInstruction.arguments := by
  induction instructions generalizing steps with
  | nil => exact ⟨[], .nil, nofun, rfl⟩
  | cons instruction instructions ih =>
    obtain ⟨hown, hothers⟩ := List.forall_mem_cons.1 hletters
    obtain ⟨own, later, hfirst, hlater, rfl⟩ := allSteps_cons_eq_ok_iff.1 hsteps
    obtain ⟨singles, hsingles, hfurther, htexts⟩ := ih hothers hlater
    by_cases hclose : instruction.command = .closePath
    · exact ⟨instruction :: singles, .close hclose hsingles,
        List.forall_mem_cons.2 ⟨hown, hfurther⟩, by rw [List.flatMap_cons, htexts]; rfl⟩
    · obtain ⟨hne, hasks, hread⟩ := (steps_eq_ok_iff hclose).1 hfirst
      have hlength : ∀ group ∈ own.map Step.arguments,
          group.length = instruction.command.slots.length := by
        intro group hgroup
        obtain ⟨step, hstep, rfl⟩ := List.mem_map.1 hgroup
        rw [← PathCommand.slots_of_asksFor hasks step hstep, ← step.slots_arguments,
          List.length_map]
      obtain ⟨written, hslots, hvalues, htext⟩ :=
        (readGroups_eq_ok_iff (PathCommand.slots_ne_nil hclose) hlength).1 hread
      have hwritten : written ≠ [] := by
        rintro rfl
        exact hne (List.map_eq_nil_iff.1 hvalues.symm)
      obtain ⟨cut, hsplit, hcut, hall⟩ :=
        exists_saysGroups (α := α) instruction.mode hclose hwritten hslots htext
      rw [hvalues] at hsplit
      refine ⟨cut ++ singles, .groups hclose hread hsplit hsingles, ?_, ?_⟩
      · intro single hsingle
        rcases List.mem_append.1 hsingle with hsingle | hsingle
        · exact hcut single hsingle
        · exact hfurther single hsingle
      · rw [List.flatMap_append, hall, htexts, List.flatMap_cons]

end PathInstruction

/-! ## Path data with one group for each letter -/

variable (α) in
/-- The second data is the first with one group for each letter. -/
def IsOneByOne (data other : List Char) : Prop :=
  ∃ instructions singles, PathInstruction.readAll data = .ok instructions ∧
    PathInstruction.readAll other = .ok singles ∧ PathInstruction.OneByOne α instructions singles

namespace PathState

/-- Path data that is followed to the end can be written with one group for each letter, and only
letters are put in for that. However it is written, it gives the same segments and leads to the same
state, with what is remembered of the last control point. -/
theorem run_oneByOne {state last : PathState α} {data : List Char} {segments : List (Segment α)}
    (h : state.run data = (.ok segments, last)) :
    (∃ other, IsOneByOne α data other ∧
        PathInstruction.withoutLetters other = PathInstruction.withoutLetters data) ∧
      ∀ other, IsOneByOne α data other → state.run other = (.ok segments, last) := by
  obtain ⟨steps, hsteps, hmove, htake⟩ := run_eq_ok_iff.1 h
  obtain ⟨instructions, hread, hall⟩ : ∃ instructions,
      PathInstruction.readAll data = .ok instructions ∧
        PathInstruction.allSteps instructions = .ok steps := by
    rw [PathInstruction.stepsOfData] at hsteps
    cases hread : PathInstruction.readAll data with
    | error flaw =>
      rw [hread] at hsteps
      cases hsteps
    | ok instructions =>
      rw [hread] at hsteps
      exact ⟨instructions, rfl, hsteps⟩
  refine ⟨?_, ?_⟩
  · obtain ⟨⟨lead, hlead, rfl⟩, hletters⟩ := PathInstruction.readAll_eq_ok_iff.1 hread
    obtain ⟨singles, hsingles, hcut, htexts⟩ := PathInstruction.exists_oneByOne hletters hall
    have hother := PathInstruction.readAll_eq_ok_iff.2 ⟨⟨lead, hlead, rfl⟩, hcut⟩
    refine ⟨_, ⟨instructions, singles, hread, hother, hsingles⟩, ?_⟩
    rw [PathInstruction.withoutLetters_append, PathInstruction.withoutLetters_append,
      PathInstruction.withoutLetters_flatMap_text hcut,
      PathInstruction.withoutLetters_flatMap_text hletters, htexts]
  · rintro other ⟨instructions', singles, hread', hother, hsingles⟩
    rw [hread] at hread'
    cases hread'
    refine run_eq_ok_iff.2 ⟨steps, ?_, hmove, htake⟩
    rw [PathInstruction.stepsOfData, hother]
    exact hsingles.allSteps hall

/-- A relative move with a line behind it, two smooth curves, the closing of the subpath and two more
smooth curves, begun where a control point is remembered. -/
theorem run_oneByOne_smooth :
    let state : PathState Float := ⟨⟨7, 8⟩, ⟨9, 9⟩, some (.cubic, ⟨1, 1⟩)⟩
    let data := " m1 2 3 4T5 6 7 8zs1 0 2 2 1 0 2-2".toList
    let other := "m1 2l3,4 T5 6T7 8zs1 0 2 2s1 0,2 -2".toList
    let segments : List (Segment Float) :=
      [.move ⟨8, 10⟩, .line ⟨8, 10⟩ ⟨11, 14⟩, .quadratic ⟨11, 14⟩ ⟨11, 14⟩ ⟨5, 6⟩,
        .quadratic ⟨5, 6⟩ ⟨-1, -2⟩ ⟨7, 8⟩, .close ⟨7, 8⟩ ⟨8, 10⟩,
        .cubic ⟨8, 10⟩ ⟨8, 10⟩ ⟨9, 10⟩ ⟨10, 12⟩, .cubic ⟨10, 12⟩ ⟨11, 14⟩ ⟨11, 12⟩ ⟨12, 10⟩]
    let last : PathState Float := ⟨⟨12, 10⟩, ⟨8, 10⟩, some (.cubic, ⟨11, 12⟩)⟩
    state.run data = (.ok segments, last) ∧ IsOneByOne Float data other ∧
      state.run other = (.ok segments, last) := by
  intro state data other segments last
  have hrun : state.run data = (.ok segments, last) := by decide +kernel
  have hread : PathInstruction.readAll data =
      .ok [⟨.moveTo, .relative, "1 2 3 4".toList⟩,
        ⟨.quadraticTo true, .absolute, "5 6 7 8".toList⟩, ⟨.closePath, .relative, []⟩,
        ⟨.cubicTo true, .relative, "1 0 2 2 1 0 2-2".toList⟩] := by decide +kernel
  have hother : PathInstruction.readAll other =
      .ok ([⟨.moveTo, .relative, "1 2".toList⟩, ⟨.lineTo, .relative, "3,4 ".toList⟩] ++
        ([⟨.quadraticTo true, .absolute, "5 6".toList⟩,
            ⟨.quadraticTo true, .absolute, "7 8".toList⟩] ++
          ⟨.closePath, .relative, []⟩ ::
            ([⟨.cubicTo true, .relative, "1 0 2 2".toList⟩,
                ⟨.cubicTo true, .relative, "1 0,2 -2".toList⟩] ++ []))) := by decide +kernel
  have hmove : readGroups (α := Float) [.number, .number] "1 2 3 4".toList =
      .ok [[.number 1, .number 2], [.number 3, .number 4]] := by decide +kernel
  have hquadratic : readGroups (α := Float) [.number, .number] "5 6 7 8".toList =
      .ok [[.number 5, .number 6], [.number 7, .number 8]] := by decide +kernel
  have hcubic : readGroups (α := Float) [.number, .number, .number, .number]
        "1 0 2 2 1 0 2-2".toList =
      .ok [[.number 1, .number 0, .number 2, .number 2],
        [.number 1, .number 0, .number 2, .number (-2)]] := by decide +kernel
  have hone : IsOneByOne Float data other := by
    refine ⟨_, _, hread, hother, .groups nofun hmove ?_ (.groups nofun hquadratic ?_
      (.close rfl (.groups nofun hcubic ?_ .nil)))⟩
    · exact .cons (by decide +kernel) (.cons (by decide +kernel) .nil)
    · exact .cons (by decide +kernel) (.cons (by decide +kernel) .nil)
    · exact .cons (by decide +kernel) (.cons (by decide +kernel) .nil)
  exact ⟨hrun, hone, (run_oneByOne hrun).2 other hone⟩

end PathState

end PenPlot
