import PenPlot.Proofs.PathCutting

/-!
# Path data is cut at its letters

Two tables have to agree for path data to be cut into instructions without loss: the letters at which it
is cut, and the commands that letters stand for. If a letter were in the first table alone, a path would
break off at it, and if one were in the second alone, the text behind it would be read as arguments of
the instruction before. `PathInstruction.readAll_lossless` says that neither happens: the instructions,
written one behind the other, are the data, and instructions that are written so are read back.
-/

namespace PenPlot

open Text

/-- The letters at which data is cut are those that stand for commands. -/
theorem ByPosition.notMem_commandLetters_iff {c : Char} :
    c ∉ commandLetters ↔ commandOfLetter? c = none := by
  rw [← List.contains_iff_mem, contains_commandLetters, Option.not_isSome_iff_eq_none]

theorem noLetter_iff {text : List Char} :
    NoLetter text ↔ ∀ c ∈ text, c ∉ ByPosition.commandLetters :=
  forall₂_congr fun _ _ => ByPosition.notMem_commandLetters_iff.symm

namespace PathInstruction

/-- An instruction as its letter and the text behind the letter. -/
def written (instruction : PathInstruction) : Char × List Char :=
  (commandLetter instruction.command instruction.mode, instruction.arguments)

/-- Every letter of a command, with any text behind it, is an instruction as it is written. -/
theorem exists_written_eq {letter : Char} (h : letter ∈ ByPosition.commandLetters)
    (arguments : List Char) : ∃ instruction : PathInstruction, instruction.written = (letter, arguments) := by
  cases hletter : commandOfLetter? letter with
  | none => exact absurd h (ByPosition.notMem_commandLetters_iff.2 hletter)
  | some found =>
    obtain ⟨command, mode⟩ := found
    refine ⟨⟨command, mode, arguments⟩, ?_⟩
    rw [written, commandOfLetter?_eq_some_iff.1 hletter]

theorem exists_map_written_eq {letters : List (Char × List Char)}
    (h : ∀ letter ∈ letters, letter.1 ∈ ByPosition.commandLetters) :
    ∃ instructions : List PathInstruction, instructions.map written = letters := by
  induction letters with
  | nil => exact ⟨[], rfl⟩
  | cons letter letters ih =>
    obtain ⟨hletter, hletters⟩ := List.forall_mem_cons.1 h
    obtain ⟨instruction, hinstruction⟩ := exists_written_eq hletter letter.2
    obtain ⟨instructions, hinstructions⟩ := ih hletters
    refine ⟨instruction :: instructions, ?_⟩
    rw [List.map_cons, hinstruction, hinstructions]

/-- Data cannot be read just if its first character that is no separator is no command letter. -/
theorem readAll_eq_error_iff {data : List Char} {flaw : PathFlaw} :
    readAll data = .error flaw ↔
      flaw = .missingCommand (skipSeparators data) ∧
        ∃ c, data.find? (fun c => !isSeparator c) = some c ∧ c ∉ ByPosition.commandLetters := by
  rw [List.find?_not_eq_head?_dropWhile, ← skipSeparators, readAll]
  cases skipSeparators data with
  | nil => simp [split]
  | cons c rest =>
    cases hletter : commandOfLetter? c with
    | none => simp [split, hletter, ByPosition.notMem_commandLetters_iff, eq_comm]
    | some found => simp [split, hletter, ByPosition.notMem_commandLetters_iff]

/-- The instructions that are read are the data behind its leading separators, cut at all letters. -/
theorem flatMap_text_of_readAll {data : List Char} {instructions : List PathInstruction}
    (h : readAll data = .ok instructions) :
    instructions.flatMap text = skipSeparators data ∧
      ∀ instruction ∈ instructions, NoLetter instruction.arguments := by
  obtain ⟨htext, -, harguments⟩ := split_spec (skipSeparators data)
  simp only [readAll] at h
  split at h
  · next hsplit =>
    cases h
    rw [hsplit] at htext harguments
    exact ⟨htext.symm, harguments⟩
  · cases h

/-- Nothing is lost where path data is cut. Cutting it at the bytes of the command letters and decoding
each letter gives what reading it gives. It fails just if the first character that is neither blank nor a
comma is there and is no command letter. Otherwise the letters and arguments of the instructions, one
behind the other, are the data behind its leading blanks and commas, and no command letter stands in an
argument text. And any letters with such texts behind them are read back as they were written. -/
theorem readAll_lossless (data : List Char) :
    ByPosition.readInstructions (skipSeparators data) = some (readAll data) ∧
      (∀ flaw, readAll data = .error flaw ↔
        flaw = .missingCommand (skipSeparators data) ∧
          ∃ c, data.find? (fun c => !isSeparator c) = some c ∧ c ∉ ByPosition.commandLetters) ∧
      (∀ instructions, readAll data = .ok instructions →
        (instructions.map written).flatMap (fun letter => letter.1 :: letter.2) = skipSeparators data ∧
          ∀ instruction ∈ instructions, ∀ c ∈ instruction.arguments, c ∉ ByPosition.commandLetters) ∧
      ∀ letters : List (Char × List Char),
        (∀ letter ∈ letters, letter.1 ∈ ByPosition.commandLetters ∧
          ∀ c ∈ letter.2, c ∉ ByPosition.commandLetters) →
        ∃ instructions, readAll (letters.flatMap fun letter => letter.1 :: letter.2) = .ok instructions ∧
          instructions.map written = letters := by
  have htexts : ∀ instructions : List PathInstruction,
      (instructions.map written).flatMap (fun letter => letter.1 :: letter.2) =
        instructions.flatMap text := fun instructions => List.flatMap_map ..
  refine ⟨ByPosition.readInstructions_eq data, fun flaw => readAll_eq_error_iff, ?_, ?_⟩
  · intro instructions hread
    obtain ⟨htext, harguments⟩ := flatMap_text_of_readAll hread
    rw [htexts]
    exact ⟨htext, fun instruction hinstruction => noLetter_iff.1 (harguments instruction hinstruction)⟩
  · intro letters hletters
    obtain ⟨instructions, rfl⟩ := exists_map_written_eq fun letter hletter => (hletters letter hletter).1
    refine ⟨instructions, ?_, rfl⟩
    rw [htexts]
    refine readAll_eq_ok_iff.2 ⟨⟨[], nofun, rfl⟩, ?_⟩
    intro instruction hinstruction
    exact noLetter_iff.2 (hletters _ (List.mem_map_of_mem hinstruction)).2

/-- Letters without arguments, and characters that only look like letters. -/
theorem readAll_lossless_lookalikes :
    let letters := [('m', ['1', 'e', '1', 'ü']), ('Z', []), ('t', [' ', 'Ｍ', ','])]
    (∀ letter ∈ letters, letter.1 ∈ ByPosition.commandLetters ∧
        ∀ c ∈ letter.2, c ∉ ByPosition.commandLetters) ∧
      (∃ instructions, readAll ['m', '1', 'e', '1', 'ü', 'Z', 't', ' ', 'Ｍ', ','] = .ok instructions ∧
        instructions.map written = letters) ∧
      readAll [' ', ',', 'Ｍ', '1'] = .error (.missingCommand ['Ｍ', '1']) := by
  intro letters
  have hletters : ∀ letter ∈ letters, letter.1 ∈ ByPosition.commandLetters ∧
      ∀ c ∈ letter.2, c ∉ ByPosition.commandLetters := by
    simp [letters, ByPosition.commandLetters]
  have hread := (readAll_lossless []).2.2.2 letters hletters
  have herror := ((readAll_lossless [' ', ',', 'Ｍ', '1']).2.1 (.missingCommand ['Ｍ', '1'])).2
    ⟨by decide, 'Ｍ', by decide, by decide⟩
  exact ⟨hletters, hread, herror⟩

end PathInstruction

end PenPlot
