import PenPlot.Proofs.PathGrammar
import PenPlot.Scalar.Machine

/-!
# Paths followed from a state that was used before

A state may serve for several paths, one after the other, and it goes on being used where a path could
not be followed to its end. Two things have to be known for that: what a path sees of the state that it
begins in, and where a path that fails has left the state.

A path begins with a move, and a move sees the current point at most: the start of the subpath and the
last control point are set anew. A path that fails leaves the state where its instructions lead that stand
before the first malformed one. Whether an instruction is malformed depends on its text alone.
-/

namespace PenPlot

open Text

namespace PathInstruction

/-- Behind its letter the instruction does not say what its command needs. -/
def Malformed (instruction : PathInstruction) : Prop :=
  ∀ written, ¬ IsCommandText instruction.mode written instruction.text

/-- At least one instruction of the data is followed: the first is a move, and it is not malformed. -/
def FollowsSome (data : List Char) : Prop :=
  ∃ first later, readAll data = .ok (first :: later) ∧ first.command = .moveTo ∧ ¬ first.Malformed

/-- The first command letter of a text. -/
def firstLetter? (text : List Char) : Option Char := text.find? fun c => (commandOfLetter? c).isSome

variable (α : Type) [Scalar α]

theorem not_malformed_iff {instruction : PathInstruction} :
    ¬ instruction.Malformed ↔ ∃ steps : List (Step α), instruction.steps = .ok steps := by
  constructor
  · intro h
    obtain ⟨written, hwritten⟩ :
        ∃ written, IsCommandText instruction.mode written instruction.text := by
      simpa [Malformed] using h
    exact ⟨_, steps_eq_ok_iff_written.2 ⟨written, rfl, hwritten⟩⟩
  · rintro ⟨steps, hsteps⟩ hmalformed
    obtain ⟨written, -, hwritten⟩ := steps_eq_ok_iff_written.1 hsteps
    exact hmalformed written hwritten

theorem malformed_iff {instruction : PathInstruction} :
    instruction.Malformed ↔ ∃ flaw, instruction.steps (α := α) = .error flaw := by
  rw [← not_iff_not, not_malformed_iff α]
  cases instruction.steps (α := α) <;> simp

theorem firstLetter?_of_readAll {data : List Char} {first : PathInstruction}
    {later : List PathInstruction} (h : readAll data = .ok (first :: later)) :
    firstLetter? data = some (commandLetter first.command first.mode) := by
  obtain ⟨⟨lead, hlead, rfl⟩, -⟩ := readAll_eq_ok_iff.1 h
  have hnone : lead.find? (fun c => (commandOfLetter? c).isSome) = none := by
    rw [List.find?_eq_none]
    intro c hc
    rw [noLetter_of_isSeparator hlead c hc]
    exact Bool.false_ne_true
  have hletter :
      (commandOfLetter? (commandLetter first.command first.mode)).isSome = true := by
    rw [commandOfLetter?_eq_some_iff.2 rfl]
    rfl
  rw [firstLetter?, List.find?_append, hnone, Option.none_or, List.flatMap_cons,
    PathInstruction.text, List.cons_append, List.find?_cons, hletter]

/-- The texts of the first instructions that are read are read as just these. -/
theorem readAll_text {data : List Char} {before behind : List PathInstruction}
    (h : readAll data = .ok (before ++ behind)) : readAll (before.flatMap text) = .ok before := by
  obtain ⟨-, hletters⟩ := readAll_eq_ok_iff.1 h
  refine readAll_eq_ok_iff.2 ⟨⟨[], nofun, rfl⟩, ?_⟩
  intro instruction hinstruction
  exact hletters instruction (List.mem_append_left _ hinstruction)

end PathInstruction

namespace PathState

variable {α : Type} [Scalar α] {first second state last : PathState α}

/-! ## What a path sees of the state before it -/

theorem advance_move {mode : CoordinateMode}
    (h : first.current = second.current ∨ mode = .absolute) (stop : Point α) :
    first.advance mode (.move stop) = second.advance mode (.move stop) := by
  have hstop : first.resolve mode stop = second.resolve mode stop := by
    cases mode with
    | absolute => rfl
    | relative =>
      have hcurrent : first.current = second.current := h.resolve_right nofun
      rw [resolve, resolve, hcurrent]
  simp only [advance, hstop]

/-- Behind an instruction for a move it does not matter any more which state was begun in. -/
theorem follow_of_move {instruction : PathInstruction} (hmove : instruction.command = .moveTo)
    (hwell : ¬ instruction.Malformed)
    (h : first.current = second.current ∨ instruction.mode = .absolute)
    (later : List PathInstruction) :
    first.follow (instruction :: later) = second.follow (instruction :: later) := by
  obtain ⟨steps, hsteps⟩ := (PathInstruction.not_malformed_iff α).1 hwell
  obtain ⟨step, further, rfl, hcommand⟩ := PathInstruction.exists_of_steps hsteps
  obtain ⟨stop, rfl⟩ := Step.eq_move_of_command (hcommand.trans hmove)
  have hsame : first.advanceAll instruction.mode (.move stop :: further) =
      second.advanceAll instruction.mode (.move stop :: further) := by
    rw [advanceAll, advanceAll, advance_move h]
  simp only [follow, hsteps, hsame]

theorem run_of_followsSome {data : List Char} (hsome : PathInstruction.FollowsSome data)
    (h : first.current = second.current ∨ PathInstruction.firstLetter? data = some 'M') :
    first.run data = second.run data := by
  obtain ⟨instruction, later, hread, hmove, hwell⟩ := hsome
  have hmode : first.current = second.current ∨ instruction.mode = .absolute := by
    rcases h with hcurrent | hletter
    · exact .inl hcurrent
    · right
      rw [PathInstruction.firstLetter?_of_readAll hread, Option.some.injEq] at hletter
      have hfound := commandOfLetter?_eq_some_iff.2 hletter.symm
      have hcapital : commandOfLetter? 'M' = some (.moveTo, .absolute) := rfl
      rw [hcapital, Option.some.injEq, Prod.mk.injEq] at hfound
      exact hfound.2.symm
  simp only [run, hread, if_pos hmove]
  exact follow_of_move hmove hwell hmode later

/-- Data of which no instruction is followed gives the same in every state, and leaves it as it was. -/
theorem run_of_not_followsSome {data : List Char} (hnone : ¬ PathInstruction.FollowsSome data) :
    ∃ result, ∀ state : PathState α, state.run data = (result, state) := by
  cases hread : PathInstruction.readAll data with
  | error flaw =>
    refine ⟨.error flaw, ?_⟩
    intro state
    simp only [run, hread]
  | ok instructions =>
    cases instructions with
    | nil =>
      refine ⟨.ok [], ?_⟩
      intro state
      simp only [run, hread]
    | cons instruction later =>
      by_cases hmove : instruction.command = .moveTo
      · have hmalformed : instruction.Malformed := by
          by_contra hwell
          exact hnone ⟨instruction, later, hread, hmove, hwell⟩
        obtain ⟨flaw, hflaw⟩ := (PathInstruction.malformed_iff α).1 hmalformed
        refine ⟨.error flaw, ?_⟩
        intro state
        simp only [run, hread, if_pos hmove, follow, hflaw]
      · refine ⟨.error (.missingMove instruction.command), ?_⟩
        intro state
        simp only [run, hread, if_neg hmove]

/-- What a path gives, segments or a flaw, depends on the current point only, and not even on that if its
first letter is a capital `M`. If any of its instructions is followed, so does the state that it leaves,
with all that is remembered in it; if none is, the state is left as it was. -/
theorem run_forgets {data : List Char}
    (h : first.current = second.current ∨ PathInstruction.firstLetter? data = some 'M') :
    (first.run data).1 = (second.run data).1 ∧
      (PathInstruction.FollowsSome data → (first.run data).2 = (second.run data).2) ∧
      (¬ PathInstruction.FollowsSome data →
        (first.run data).2 = first ∧ (second.run data).2 = second) := by
  by_cases hsome : PathInstruction.FollowsSome data
  · have hsame := run_of_followsSome hsome h
    exact ⟨by rw [hsame], fun _ => by rw [hsame], fun hnone => absurd hsome hnone⟩
  · obtain ⟨result, hrun⟩ := run_of_not_followsSome (α := α) hsome
    rw [hrun first, hrun second]
    exact ⟨rfl, fun h => absurd h hsome, fun _ => ⟨rfl, rfl⟩⟩

/-- Two states of which only the current point is the same, before a relative move, and two that have
nothing in common, before an absolute one. The second path breaks off at its last instruction. -/
theorem run_forgets_relative_and_absolute :
    let first : PathState Float := ⟨⟨7, 8⟩, ⟨9, 9⟩, some (.cubic, ⟨1, 1⟩)⟩
    let second : PathState Float := ⟨⟨7, 8⟩, ⟨0, 3⟩, none⟩
    let third : PathState Float := ⟨⟨1, 4⟩, ⟨2, 2⟩, some (.quadratic, ⟨5, 6⟩)⟩
    let relative := "m1 2zs1 0 2 2".toList
    let absolute := ",M1 2t1 1 2".toList
    first.current = second.current ∧ first.run relative = second.run relative ∧
      first.run relative =
        (.ok [.move ⟨8, 10⟩, .close ⟨8, 10⟩ ⟨8, 10⟩, .cubic ⟨8, 10⟩ ⟨8, 10⟩ ⟨9, 10⟩ ⟨10, 12⟩],
          ⟨⟨10, 12⟩, ⟨8, 10⟩, some (.cubic, ⟨9, 10⟩)⟩) ∧
      PathInstruction.firstLetter? absolute = some 'M' ∧
      first.run absolute = third.run absolute ∧
      first.run absolute =
        (.error (.incompleteGroup 2 "1 1 2".toList), ⟨⟨1, 2⟩, ⟨1, 2⟩, none⟩) := by
  intro first second third relative absolute
  have hwell : ∀ (mode : CoordinateMode),
      ¬ (PathInstruction.mk .moveTo mode "1 2".toList).Malformed := by
    intro mode
    refine (PathInstruction.not_malformed_iff Float).2 ⟨[.move ⟨1, 2⟩], ?_⟩
    cases mode <;> decide +kernel
  have hrelative : PathInstruction.FollowsSome relative :=
    ⟨⟨.moveTo, .relative, "1 2".toList⟩,
      [⟨.closePath, .relative, []⟩, ⟨.cubicTo true, .relative, "1 0 2 2".toList⟩],
      by decide +kernel, rfl, hwell _⟩
  have habsolute : PathInstruction.FollowsSome absolute :=
    ⟨⟨.moveTo, .absolute, "1 2".toList⟩, [⟨.quadraticTo true, .relative, "1 1 2".toList⟩],
      by decide +kernel, rfl, hwell _⟩
  have hletter : PathInstruction.firstLetter? absolute = some 'M' := by decide
  have hcurrent : first.current = second.current := rfl
  obtain ⟨hsecond, hsecondLast, -⟩ := @run_forgets Float _ first second relative (.inl hcurrent)
  obtain ⟨hthird, hthirdLast, -⟩ := @run_forgets Float _ first third absolute (.inr hletter)
  refine ⟨hcurrent, ?_, by decide +kernel, hletter, ?_, by decide +kernel⟩
  · exact Prod.ext hsecond (hsecondLast hrelative)
  · exact Prod.ext hthird (hthirdLast habsolute)

/-! ## Where a path that fails leaves the state -/

theorem exists_of_follow_error {instructions : List PathInstruction} {flaw : PathFlaw}
    (h : state.follow instructions = (.error flaw, last)) :
    ∃ before failing behind, instructions = before ++ failing :: behind ∧
      (∀ instruction ∈ before, ¬ instruction.Malformed) ∧ failing.Malformed ∧
        ∃ segments, state.follow before = (.ok segments, last) := by
  induction instructions generalizing state with
  | nil => cases h
  | cons instruction instructions ih =>
    rw [follow] at h
    cases hsteps : instruction.steps (α := α) with
    | error found =>
      rw [hsteps] at h
      obtain ⟨-, rfl⟩ := Prod.mk.inj h
      exact ⟨[], instruction, instructions, rfl, List.forall_mem_nil _,
        (PathInstruction.malformed_iff α).2 ⟨found, hsteps⟩, [], rfl⟩
    | ok own =>
      rw [hsteps] at h
      cases hlater : (state.advanceAll instruction.mode own).2.follow instructions with
      | mk result behind =>
        simp only [hlater] at h
        obtain ⟨hresult, rfl⟩ := Prod.mk.inj h
        cases result with
        | ok segments => cases hresult
        | error found =>
          obtain rfl : found = flaw := by simpa [Except.map] using hresult
          obtain ⟨before, failing, further, rfl, hwell, hfailing, segments, hbefore⟩ := ih hlater
          have hfirst : ¬ instruction.Malformed :=
            (PathInstruction.not_malformed_iff α).2 ⟨own, hsteps⟩
          exact ⟨instruction :: before, failing, further, rfl,
            List.forall_mem_cons.2 ⟨hfirst, hwell⟩, hfailing, _,
            follow_cons_eq_ok_iff.2 ⟨own, segments, hsteps, hbefore, rfl⟩⟩

/-- Data whose instructions begin with a move is run as its instructions are followed. -/
theorem run_of_readAll {data : List Char} {instructions : List PathInstruction}
    (hread : PathInstruction.readAll data = .ok instructions)
    (hmove : ∀ first ∈ instructions.head?, first.command = .moveTo) :
    state.run data = state.follow instructions := by
  cases instructions with
  | nil => simp only [run, hread, follow]
  | cons first later => simp only [run, hread, if_pos (hmove first rfl)]

/-- A path that fails leaves the state as it was if it is not read as instructions that begin with a move.
Otherwise one of its instructions is malformed, and it leaves the state just where the instructions before
the first malformed one lead. -/
theorem run_stops_before_malformed {data : List Char} {flaw : PathFlaw}
    (h : state.run data = (.error flaw, last)) :
    ((∃ flaw, PathInstruction.readAll data = .error flaw) ∨
        ∃ first later, PathInstruction.readAll data = .ok (first :: later) ∧
          first.command ≠ .moveTo) ∧ last = state ∨
      ∃ instructions k failing, PathInstruction.readAll data = .ok instructions ∧
        (∀ first ∈ instructions.head?, first.command = .moveTo) ∧
        instructions[k]? = some failing ∧ failing.Malformed ∧
        (∀ instruction ∈ instructions.take k, ¬ instruction.Malformed) ∧
        ∃ segments,
          state.run ((instructions.take k).flatMap PathInstruction.text) = (.ok segments, last) := by
  cases hread : PathInstruction.readAll data with
  | error found =>
    left
    simp only [run, hread] at h
    exact ⟨.inl ⟨found, rfl⟩, (Prod.mk.inj h).2.symm⟩
  | ok instructions =>
    by_cases hmove : ∀ first ∈ instructions.head?, first.command = .moveTo
    · right
      rw [run_of_readAll hread hmove] at h
      obtain ⟨before, failing, behind, rfl, hwell, hfailing, segments, hbefore⟩ :=
        exists_of_follow_error h
      have htake : (before ++ failing :: behind).take before.length = before := List.take_left
      have hat : (before ++ failing :: behind)[before.length]? = some failing := by
        rw [List.getElem?_append_right (Nat.le_refl _), Nat.sub_self]
        rfl
      have hhead : ∀ first ∈ before.head?, first.command = .moveTo := by
        intro first hfirst
        refine hmove first ?_
        rw [List.head?_append, hfirst]
        rfl
      refine ⟨_, before.length, failing, rfl, hmove, hat, hfailing, ?_, segments, ?_⟩
      · rwa [htake]
      · rw [htake, run_of_readAll (PathInstruction.readAll_text hread) hhead, hbefore]
    · left
      cases instructions with
      | nil => exact absurd (fun _ => nofun) hmove
      | cons first later =>
        have hcommand : first.command ≠ .moveTo := by
          intro hfirst
          refine hmove ?_
          rintro _ ⟨⟩
          exact hfirst
        simp only [run, hread, if_neg hcommand] at h
        exact ⟨.inr ⟨first, later, rfl, hcommand⟩, (Prod.mk.inj h).2.symm⟩

/-- The last of four instructions has two complete groups and half of a third. -/
theorem run_stops_before_malformed_in_third_group :
    let state : PathState Float := ⟨⟨7, 8⟩, ⟨9, 9⟩, some (.cubic, ⟨1, 1⟩)⟩
    let data := "m1 2 3 4zq1 1 2 0L5 6 7 8 9".toList
    let last : PathState Float := ⟨⟨10, 10⟩, ⟨8, 10⟩, some (.quadratic, ⟨9, 11⟩)⟩
    state.run data = (.error (.incompleteGroup 2 "5 6 7 8 9".toList), last) ∧
      ∃ instructions k failing, PathInstruction.readAll data = .ok instructions ∧
        instructions[k]? = some failing ∧ failing.Malformed ∧
        (∀ instruction ∈ instructions.take k, ¬ instruction.Malformed) ∧
        ∃ segments,
          state.run ((instructions.take k).flatMap PathInstruction.text) = (.ok segments, last) := by
  intro state data last
  have hrun : state.run data = (.error (.incompleteGroup 2 "5 6 7 8 9".toList), last) := by
    decide +kernel
  have hread : PathInstruction.readAll data =
      .ok [⟨.moveTo, .relative, "1 2 3 4".toList⟩, ⟨.closePath, .relative, []⟩,
        ⟨.quadraticTo false, .relative, "1 1 2 0".toList⟩,
        ⟨.lineTo, .absolute, "5 6 7 8 9".toList⟩] := by decide +kernel
  rcases run_stops_before_malformed hrun with ⟨hnone | ⟨first, later, hfirst, hcommand⟩, -⟩ | hfailed
  · obtain ⟨flaw, hflaw⟩ := hnone
    rw [hread] at hflaw
    cases hflaw
  · rw [hread] at hfirst
    cases hfirst
    exact absurd rfl hcommand
  · obtain ⟨instructions, k, failing, hok, -, hat, hmalformed, hwell, hsegments⟩ := hfailed
    exact ⟨hrun, instructions, k, failing, hok, hat, hmalformed, hwell, hsegments⟩

end PathState

end PenPlot
