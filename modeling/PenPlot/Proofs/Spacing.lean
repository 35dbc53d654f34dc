import Mathlib
import PenPlot.Markup.Attribute
import PenPlot.Fault
import PenPlot.Path.Segment

/-!
# Spaces for line breaks

No reader of values tells a line break or a tab from a space. A value in which every line break and
every tab is a space is read as the same numbers, the same lengths, the same transform and the same
path, and where it is malformed, the reader reports the same flaw. Only the texts that the flaw quotes
have spaces where the value has line breaks and tabs.
-/

namespace PenPlot

/-! ## Characters -/

namespace Text

/-- The character, with a space for a line break or a tab. -/
def spaced (c : Char) : Char := if c = '\n' ∨ c = '\r' ∨ c = '\t' then ' ' else c

/-- What is the same for a space as for line breaks and tabs does not change. -/
theorem apply_spaced {β : Type} {f : Char → β}
    (h : f ' ' = f '\n' ∧ f ' ' = f '\r' ∧ f ' ' = f '\t') (c : Char) : f (spaced c) = f c := by
  obtain ⟨hnewline, hreturn, htab⟩ := h
  by_cases hc : c = '\n' ∨ c = '\r' ∨ c = '\t'
  · rw [spaced, if_pos hc]
    rcases hc with rfl | rfl | rfl
    · exact hnewline
    · exact hreturn
    · exact htab
  · rw [spaced, if_neg hc]

@[simp]
theorem isBlank_spaced (c : Char) : isBlank (spaced c) = isBlank c := apply_spaced (by decide) c

@[simp]
theorem isGap_spaced (c : Char) : isGap (spaced c) = isGap c := apply_spaced (by decide) c

@[simp]
theorem isSeparator_spaced (c : Char) : isSeparator (spaced c) = isSeparator c :=
  apply_spaced (by decide) c

@[simp]
theorem isDigit_spaced (c : Char) : (spaced c).isDigit = c.isDigit := apply_spaced (by decide) c

@[simp]
theorem isQuote_spaced (c : Char) : QuoteMarks.isQuote (spaced c) = QuoteMarks.isQuote c :=
  apply_spaced (by decide) c

@[simp]
theorem commandOfLetter?_spaced (c : Char) : commandOfLetter? (spaced c) = commandOfLetter? c :=
  apply_spaced (by decide) c

/-- A character that is not blank stands for itself alone. -/
theorem spaced_eq_iff {c d : Char} (hd : isBlank d = false) : spaced c = d ↔ c = d := by
  by_cases hc : c = '\n' ∨ c = '\r' ∨ c = '\t'
  · rw [spaced, if_pos hc]
    constructor
    · rintro rfl
      cases hd
    · rintro rfl
      rcases hc with rfl | rfl | rfl <;> cases hd
  · rw [spaced, if_neg hc]

theorem spaced_of_isBlank_eq_false {c : Char} (hc : isBlank c = false) : spaced c = c :=
  (spaced_eq_iff hc).2 rfl

/-- A last or a first character that is not blank stands for itself alone. -/
theorem map_spaced_eq_some_iff {c? : Option Char} {d : Char} (hd : isBlank d = false) :
    c?.map spaced = some d ↔ c? = some d := by
  cases c? with
  | none => simp
  | some c => rw [Option.map_some, Option.some.injEq, Option.some.injEq, spaced_eq_iff hd]

/-! ## Texts -/

/-- The text has no blanks. -/
def IsWord (text : List Char) : Prop := ∀ c ∈ text, isBlank c = false

instance (text : List Char) : Decidable (IsWord text) :=
  decidable_of_iff (text.any isBlank = false) (by simp [IsWord])

theorem map_spaced_eq_self {text : List Char} (h : IsWord text) :
    text.map spaced = text := by
  have hself : ∀ c ∈ text, spaced c = id c := fun c hc => spaced_of_isBlank_eq_false (h c hc)
  rw [List.map_congr_left hself, List.map_id]

theorem takeWhile_map_spaced {p : Char → Bool} (hp : ∀ c, p (spaced c) = p c) (text : List Char) :
    (text.map spaced).takeWhile p = (text.takeWhile p).map spaced := by
  rw [List.takeWhile_map, show p ∘ spaced = p from funext hp]

theorem dropWhile_map_spaced {p : Char → Bool} (hp : ∀ c, p (spaced c) = p c) (text : List Char) :
    (text.map spaced).dropWhile p = (text.dropWhile p).map spaced := by
  rw [List.dropWhile_map, show p ∘ spaced = p from funext hp]

/-- What stands before the first blank does not change. -/
theorem takeWhile_map_spaced_of_blank {p : Char → Bool} (hp : ∀ c, p (spaced c) = p c)
    (hblank : ∀ c, p c = true → isBlank c = false) (text : List Char) :
    (text.map spaced).takeWhile p = text.takeWhile p := by
  rw [takeWhile_map_spaced hp, map_spaced_eq_self]
  intro c hc
  exact hblank c (List.all_eq_true.1 List.all_takeWhile c hc)

theorem takeWhile_bne_map_spaced {d : Char} (hd : isBlank d = false) (text : List Char) :
    (text.map spaced).takeWhile (· != d) = (text.takeWhile (· != d)).map spaced :=
  takeWhile_map_spaced (p := fun c => c != d)
    (fun c => by rw [Bool.eq_iff_iff, bne_iff_ne, bne_iff_ne, Ne, spaced_eq_iff hd]) text

theorem dropWhile_bne_map_spaced {d : Char} (hd : isBlank d = false) (text : List Char) :
    (text.map spaced).dropWhile (· != d) = (text.dropWhile (· != d)).map spaced :=
  dropWhile_map_spaced (p := fun c => c != d)
    (fun c => by rw [Bool.eq_iff_iff, bne_iff_ne, bne_iff_ne, Ne, spaced_eq_iff hd]) text

@[simp]
theorem skipGaps_map_spaced (text : List Char) :
    skipGaps (text.map spaced) = (skipGaps text).map spaced :=
  dropWhile_map_spaced isGap_spaced text

@[simp]
theorem skipSeparators_map_spaced (text : List Char) :
    skipSeparators (text.map spaced) = (skipSeparators text).map spaced :=
  dropWhile_map_spaced isSeparator_spaced text

@[simp]
theorem trimStart_map_spaced (text : List Char) :
    trimStart (text.map spaced) = (trimStart text).map spaced :=
  dropWhile_map_spaced isBlank_spaced text

@[simp]
theorem trimEnd_map_spaced (text : List Char) :
    trimEnd (text.map spaced) = (trimEnd text).map spaced := by
  rw [trimEnd, ← List.map_reverse, dropWhile_map_spaced isBlank_spaced, ← List.map_reverse, trimEnd]

@[simp]
theorem trim_map_spaced (text : List Char) : trim (text.map spaced) = (trim text).map spaced := by
  rw [trim, trimStart_map_spaced, trimEnd_map_spaced, trim]

/-- A word without blanks is written in only one way. -/
theorem map_spaced_eq_iff {word : List Char} (h : IsWord word) (text : List Char) :
    text.map spaced = word ↔ text = word := by
  induction word generalizing text with
  | nil => simp
  | cons d word ih =>
    cases text with
    | nil => simp
    | cons c text =>
      rw [List.map_cons, List.cons.injEq, List.cons.injEq, spaced_eq_iff (h d (by simp)),
        ih fun c hc => h c (List.mem_cons_of_mem d hc)]

/-- A word without blanks stands at the front of a text either way. -/
theorem isPrefixOf_map_spaced {word : List Char} (h : IsWord word) (text : List Char) :
    word.isPrefixOf (text.map spaced) = word.isPrefixOf text := by
  induction word generalizing text with
  | nil => simp
  | cons d word ih =>
    cases text with
    | nil => rfl
    | cons c text =>
      have hd : (d == spaced c) = (d == c) := by
        rw [Bool.eq_iff_iff, beq_iff_eq, beq_iff_eq, eq_comm, spaced_eq_iff (h d (by simp)), eq_comm]
      rw [List.map_cons, List.isPrefixOf_cons_cons, List.isPrefixOf_cons_cons, hd,
        ih fun c hc => h c (List.mem_cons_of_mem d hc)]

end Text

open Text

/-! ## Number literals -/

/-- What is read with a rest behind it, the rest with spaces. -/
abbrev spacedRest {β : Type} : β × List Char → β × List Char := Prod.map id (List.map spaced)

theorem Sign.ofChar?_spaced (c : Char) : ofChar? (spaced c) = ofChar? c :=
  apply_spaced (by decide) c

@[simp]
theorem Sign.read_map_spaced (text : List Char) :
    read (text.map spaced) = spacedRest (read text) := by
  cases text with
  | nil => rfl
  | cons c rest =>
    rw [List.map_cons, read, read, ofChar?_spaced]
    cases ofChar? c <;> rfl

@[simp]
theorem readDigits_map_spaced (text : List Char) :
    readDigits (text.map spaced) = spacedRest (readDigits text) := by
  rw [readDigits, dropWhile_map_spaced isDigit_spaced,
    takeWhile_map_spaced_of_blank isDigit_spaced fun c hc => isBlank_of_isDigit hc]
  rfl

namespace Exponent

theorem readBehind?_map_spaced (capital : Bool) (text : List Char) :
    readBehind? capital (text.map spaced) = (readBehind? capital text).map spacedRest := by
  simp only [readBehind?, Sign.read_map_spaced, Prod.map_fst, Prod.map_snd, readDigits_map_spaced,
    id_eq]
  split <;> rfl

@[simp]
theorem read_map_spaced (text : List Char) : read (text.map spaced) = spacedRest (read text) := by
  cases text with
  | nil => rfl
  | cons c text =>
    rw [List.map_cons]
    by_cases he : c = 'e'
    · subst he
      show read ('e' :: text.map spaced) = _
      simp only [read, readBehind?_map_spaced]
      cases readBehind? false text <;> rfl
    · by_cases hE : c = 'E'
      · subst hE
        show read ('E' :: text.map spaced) = _
        simp only [read, readBehind?_map_spaced]
        cases readBehind? true text <;> rfl
      · have he' : spaced c ≠ 'e' := by rwa [Ne, spaced_eq_iff (by decide)]
        have hE' : spaced c ≠ 'E' := by rwa [Ne, spaced_eq_iff (by decide)]
        rw [read_of_ne he' hE', read_of_ne he hE]
        rfl

end Exponent

namespace Literal

theorem readFraction_of_ne {c : Char} (hc : c ≠ '.') (whole text : List Char) :
    readFraction whole (c :: text) = (none, c :: text) := by
  rw [readFraction.eq_def]
  split
  · next heq => exact absurd (List.cons.inj heq).1 hc
  · rfl

@[simp]
theorem readFraction_map_spaced (whole text : List Char) :
    readFraction whole (text.map spaced) = spacedRest (readFraction whole text) := by
  cases text with
  | nil => rfl
  | cons c text =>
    rw [List.map_cons]
    by_cases hc : c = '.'
    · subst hc
      show readFraction whole ('.' :: text.map spaced) = _
      simp only [readFraction, readDigits_map_spaced, Prod.map_fst, Prod.map_snd, id_eq]
      split <;> rfl
    · have hc' : spaced c ≠ '.' := by rwa [Ne, spaced_eq_iff (by decide)]
      rw [readFraction_of_ne hc', readFraction_of_ne hc]
      rfl

/-- The same literal is read, and the rest is the same text with spaces. -/
@[simp]
theorem read?_map_spaced (text : List Char) :
    read? (text.map spaced) = (read? text).map spacedRest := by
  simp only [read?, Sign.read_map_spaced, readDigits_map_spaced, readFraction_map_spaced,
    Exponent.read_map_spaced, Prod.map_fst, Prod.map_snd, id_eq]
  split <;> rfl

end Literal

/-! ## Lengths -/

/-- A unit is written without blanks. -/
theorem LengthUnit.ofSuffix?_map_spaced (text : List Char) :
    ofSuffix? (text.map spaced) = ofSuffix? text := by
  have hsuffix : ∀ unit : LengthUnit, IsWord unit.suffix.toList := by
    intro unit
    cases unit <;> decide
  have hsame : ∀ unit : LengthUnit,
      (unit.suffix.toList == text.map spaced) = (unit.suffix.toList == text) := by
    intro unit
    rw [Bool.eq_iff_iff, beq_iff_eq, beq_iff_eq, eq_comm, map_spaced_eq_iff (hsuffix unit), eq_comm]
  simp only [ofSuffix?, hsame]

variable {α : Type} [Scalar α]

theorem readLength_map_spaced (text : List Char) (default : α) :
    (readLength (text.map spaced) default).1 = (readLength text default).1 := by
  simp only [readLength, trim_map_spaced, List.isEmpty_map, Literal.read?_map_spaced]
  by_cases hblank : (trim text).isEmpty = true
  · rw [if_pos hblank, if_pos hblank]
  · rw [if_neg hblank, if_neg hblank]
    cases Literal.read? (trim text) with
    | none => rfl
    | some found =>
      obtain ⟨literal, rest⟩ := found
      simp only [Option.map_some, Prod.map_apply, id_eq, trim_map_spaced, List.isEmpty_map,
        LengthUnit.ofSuffix?_map_spaced]
      by_cases hunit : (trim rest).isEmpty = true
      · rw [if_pos hunit, if_pos hunit]
      · rw [if_neg hunit, if_neg hunit]
        cases LengthUnit.ofSuffix? (trim rest) <;> rfl

/-! ## Lists of numbers -/

/-- The flaw, with spaces in the text that it quotes. -/
def ListFlaw.spaced : ListFlaw → ListFlaw
  | notNumber rest => notNumber (rest.map Text.spaced)
  | notFlag rest => notFlag (rest.map Text.spaced)

theorem readNumber_map_spaced (text : List Char) :
    readNumber (α := α) (text.map spaced) =
      ((readNumber text).map spacedRest).mapError ListFlaw.spaced := by
  simp only [readNumber, Literal.read?_map_spaced]
  cases Literal.read? text <;> rfl

theorem readFlag_of_ne {c : Char} (h0 : c ≠ '0') (h1 : c ≠ '1') (rest : List Char) :
    readFlag (c :: rest) = .error (.notFlag (c :: rest)) := by
  rw [readFlag.eq_def]
  split
  · next heq => exact absurd (List.cons.inj heq).1 h0
  · next heq => exact absurd (List.cons.inj heq).1 h1
  · rfl

theorem readFlag_map_spaced (text : List Char) :
    readFlag (text.map spaced) = ((readFlag text).map spacedRest).mapError ListFlaw.spaced := by
  cases text with
  | nil => rfl
  | cons c rest =>
    rw [List.map_cons]
    by_cases h0 : c = '0'
    · subst h0
      rfl
    · by_cases h1 : c = '1'
      · subst h1
        rfl
      · have h0' : spaced c ≠ '0' := by rwa [Ne, spaced_eq_iff (by decide)]
        have h1' : spaced c ≠ '1' := by rwa [Ne, spaced_eq_iff (by decide)]
        rw [readFlag_of_ne h0' h1', readFlag_of_ne h0 h1]
        rfl

theorem Slot.read_map_spaced (slot : Slot) (text : List Char) :
    slot.read (α := α) (text.map spaced) =
      ((slot.read text).map spacedRest).mapError ListFlaw.spaced := by
  cases slot with
  | number =>
    simp only [Slot.read, readNumber_map_spaced]
    cases readNumber (α := α) text <;> rfl
  | flag =>
    simp only [Slot.read, readFlag_map_spaced]
    cases readFlag text <;> rfl

theorem readNumbers_map_spaced (text : List Char) :
    readNumbers (α := α) (text.map spaced) = (readNumbers text).mapError ListFlaw.spaced := by
  induction hn : text.length using Nat.strongRecOn generalizing text with
  | ind n ih =>
  cases hs : skipGaps text with
  | nil => rw [readNumbers_of_nil hs, readNumbers_of_nil (by simp [hs])]; rfl
  | cons c behind =>
    have hs' : skipGaps (text.map spaced) = spaced c :: behind.map spaced := by simp [hs]
    rw [readNumbers_of_cons hs, readNumbers_of_cons hs', ← List.map_cons, readNumber_map_spaced]
    cases hr : readNumber (α := α) (c :: behind) with
    | error flaw => rfl
    | ok found =>
      have hle := length_skipGaps_le text
      rw [hs] at hle
      have hlt := length_readNumber_lt hr
      have hrest := ih found.2.length (by omega) found.2 rfl
      simp only [Except.map, Except.mapError, Except.bind, Prod.map_fst, Prod.map_snd, id_eq, hrest]
      cases readNumbers (α := α) found.2 <;> rfl

theorem readGroup_map_spaced (slots : List Slot) (text : List Char) :
    readGroup (α := α) slots (text.map spaced) =
      ((readGroup slots text).map spacedRest).mapError ListFlaw.spaced := by
  induction slots generalizing text with
  | nil => rfl
  | cons slot slots ih =>
    rw [readGroup, readGroup, skipGaps_map_spaced]
    cases skipGaps text with
    | nil => rfl
    | cons c behind =>
      simp only [List.map_cons]
      rw [← List.map_cons, slot.read_map_spaced]
      cases slot.read (α := α) (c :: behind) with
      | error flaw => rfl
      | ok found =>
        simp only [Except.map, Except.mapError, Prod.map_fst, Prod.map_snd, id_eq, ih]
        cases readGroup (α := α) slots found.2 <;> rfl

theorem readGroups_map_spaced (slots : List Slot) (text : List Char) :
    readGroups (α := α) slots (text.map spaced) =
      (readGroups slots text).mapError ListFlaw.spaced := by
  induction hn : text.length using Nat.strongRecOn generalizing text with
  | ind n ih =>
  cases hs : skipGaps text with
  | nil => rw [readGroups_of_nil hs, readGroups_of_nil (by simp [hs])]; rfl
  | cons c behind =>
    cases slots with
    | nil => rw [readGroups_nil, readGroups_nil]; rfl
    | cons slot slots =>
      have hs' : skipGaps (text.map spaced) = spaced c :: behind.map spaced := by simp [hs]
      rw [readGroups_of_cons hs, readGroups_of_cons hs', readGroup_map_spaced]
      cases hg : readGroup (α := α) (slot :: slots) text with
      | error flaw => rfl
      | ok found =>
        have hrest := ih found.2.length (hn ▸ length_readGroup_lt hs hg) found.2 rfl
        simp only [Except.map, Except.mapError, Except.bind, Prod.map_fst, Prod.map_snd, id_eq, hrest]
        cases readGroups (α := α) (slot :: slots) found.2 <;> rfl

/-! ## Transform lists -/

/-- The flaw, with spaces in the text that it quotes. -/
def TransformFlaw.spaced : TransformFlaw → TransformFlaw
  | unknownFunction rest => unknownFunction (rest.map Text.spaced)
  | arguments flaw => arguments flaw.spaced
  | flaw => flaw

/-- The name of a function is written without blanks. -/
theorem TransformFunction.ofPrefix?_map_spaced (text : List Char) :
    ofPrefix? (text.map spaced) = ofPrefix? text := by
  have hname : ∀ function : TransformFunction, IsWord function.name.toList := by
    intro function
    cases function <;> decide
  simp only [ofPrefix?, isPrefixOf_map_spaced (hname _)]

namespace Affine

theorem readCall_map_spaced (text : List Char) :
    readCall (α := α) (text.map spaced) =
      ((readCall text).map spacedRest).mapError TransformFlaw.spaced := by
  rw [readCall, readCall, TransformFunction.ofPrefix?_map_spaced]
  cases TransformFunction.ofPrefix? text with
  | none => rfl
  | some function =>
    simp only [← List.map_drop, trimStart_map_spaced]
    cases hbehind : trimStart (text.drop function.name.toList.length) with
    | nil => rfl
    | cons c behind =>
      by_cases hc : c = '('
      · subst hc
        have hparen : isBlank ')' = false := by decide
        have hopen : spaced '(' = '(' := spaced_of_isBlank_eq_false rfl
        simp only [List.map_cons, hopen, dropWhile_bne_map_spaced hparen,
          takeWhile_bne_map_spaced hparen, readNumbers_map_spaced]
        cases behind.dropWhile (· != ')') with
        | nil => rfl
        | cons d rest =>
          simp only [List.map_cons]
          cases readNumbers (α := α) (behind.takeWhile (· != ')')) with
          | error flaw => rfl
          | ok arguments =>
            simp only [Except.mapError]
            cases function.call? arguments <;> rfl
      · have hc' : spaced c ≠ '(' := by rwa [Ne, spaced_eq_iff (by decide)]
        simp only [List.map_cons]
        split
        · next heq => exact absurd (List.cons.inj heq).1 hc'
        · split
          · next heq => exact absurd (List.cons.inj heq).1 hc
          · rfl

theorem readCalls_map_spaced (transform : Affine α) (text : List Char) :
    readCalls transform (text.map spaced) =
      (readCalls transform text).mapError TransformFlaw.spaced := by
  induction hn : text.length using Nat.strongRecOn generalizing text transform with
  | ind n ih =>
  by_cases htext : text = []
  · subst htext
    rw [List.map_nil, readCalls_nil]
    rfl
  · rw [readCalls_of_ne_nil htext, readCalls_of_ne_nil (by simpa using htext), readCall_map_spaced]
    cases hc : readCall (α := α) text with
    | error flaw => rfl
    | ok found =>
      have hlt := length_readCall_lt hc
      have hle := (List.dropWhile_sublist (l := found.2) isSeparator).length_le
      have hrest := ih (skipSeparators found.2).length (by simp only [skipSeparators]; omega)
        (transform.comp found.1) (skipSeparators found.2) rfl
      simpa only [Except.map, Except.mapError, Except.bind, Prod.map_fst, Prod.map_snd, id_eq,
        skipSeparators_map_spaced] using hrest

theorem readList_map_spaced (text : List Char) :
    readList (α := α) (text.map spaced) = (readList text).mapError TransformFlaw.spaced := by
  rw [readList, skipSeparators_map_spaced, readCalls_map_spaced, readList]

end Affine

/-! ## Path data -/

/-- The flaw, with spaces in the text that it quotes. -/
def PathFlaw.spaced : PathFlaw → PathFlaw
  | missingCommand rest => missingCommand (rest.map Text.spaced)
  | closeArguments text => closeArguments (text.map Text.spaced)
  | incompleteGroup arity text => incompleteGroup arity (text.map Text.spaced)
  | arguments flaw => arguments flaw.spaced
  | flaw => flaw

omit [Scalar α] in
/-- The steps do not depend on the text that a flaw would quote. -/
theorem stepsOfGroups_map_spaced (command : PathCommand) (text : List Char)
    (groups : List (List (Argument α))) :
    stepsOfGroups command (text.map spaced) groups =
      (stepsOfGroups command text groups).mapError PathFlaw.spaced := by
  induction groups generalizing command with
  | nil => rfl
  | cons group groups ih =>
    rw [stepsOfGroups, stepsOfGroups]
    cases Step.ofGroup? command group with
    | none => rfl
    | some step =>
      simp only [ih]
      cases stepsOfGroups command.following text groups <;> rfl

namespace PathInstruction

/-- The instruction with spaces in the text of its arguments. -/
def spaced (instruction : PathInstruction) : PathInstruction :=
  { instruction with arguments := instruction.arguments.map Text.spaced }

/-- The text is cut at the same letters. -/
theorem split_map_spaced (data : List Char) :
    split (data.map Text.spaced) = Prod.map (List.map Text.spaced) (List.map spaced) (split data) := by
  induction data with
  | nil => rfl
  | cons c rest ih =>
    simp only [List.map_cons, split, ih, commandOfLetter?_spaced]
    cases commandOfLetter? c <;> rfl

theorem readAll_map_spaced (data : List Char) :
    readAll (data.map Text.spaced) =
      ((readAll data).map (List.map spaced)).mapError PathFlaw.spaced := by
  simp only [readAll, skipSeparators_map_spaced, split_map_spaced]
  obtain ⟨before, instructions⟩ := split (skipSeparators data)
  cases before <;> rfl

theorem steps_spaced (instruction : PathInstruction) :
    instruction.spaced.steps (α := α) = instruction.steps.mapError PathFlaw.spaced := by
  obtain ⟨command, mode, text⟩ := instruction
  cases command with
  | closePath =>
    have hall : (text.map Text.spaced).all isSeparator = text.all isSeparator := by
      rw [List.all_map, show isSeparator ∘ Text.spaced = isSeparator from funext isSeparator_spaced]
    simp only [steps, spaced, hall]
    split <;> rfl
  | _ =>
    simp only [steps, spaced, readGroups_map_spaced]
    generalize readGroups (α := α) _ text = read
    obtain flaw | (_ | ⟨group, groups⟩) := read
    · rfl
    · rfl
    · exact stepsOfGroups_map_spaced _ text (group :: groups)

end PathInstruction

namespace PathState

theorem follow_map_spaced (state : PathState α) (instructions : List PathInstruction) :
    state.follow (instructions.map PathInstruction.spaced) =
      Prod.map (Except.mapError PathFlaw.spaced) id (state.follow instructions) := by
  induction instructions generalizing state with
  | nil => rfl
  | cons instruction instructions ih =>
    rw [List.map_cons, follow, follow, instruction.steps_spaced]
    cases instruction.steps (α := α) with
    | error flaw => rfl
    | ok steps =>
      have hmode : instruction.spaced.mode = instruction.mode := rfl
      simp only [Except.mapError, hmode, ih]
      obtain ⟨flaw | segments, last⟩ :=
        (state.advanceAll instruction.mode steps).2.follow instructions <;> rfl

theorem run_map_spaced (state : PathState α) (data : List Char) :
    state.run (data.map spaced) = Prod.map (Except.mapError PathFlaw.spaced) id (state.run data) := by
  rw [run, run, PathInstruction.readAll_map_spaced]
  cases PathInstruction.readAll data with
  | error flaw => rfl
  | ok instructions =>
    cases instructions with
    | nil => rfl
    | cons first later =>
      by_cases hmove : first.command = .moveTo
      · have hmove' : first.spaced.command = .moveTo := hmove
        simp only [Except.map, Except.mapError, List.map_cons, if_pos hmove, if_pos hmove']
        exact follow_map_spaced state (first :: later)
      · have hmove' : first.spaced.command ≠ .moveTo := hmove
        simp only [Except.map, Except.mapError, List.map_cons, if_neg hmove, if_neg hmove']
        rfl

end PathState

/-! ## Attributes -/

theorem isBlank_of_isQuote {c : Char} (h : QuoteMarks.isQuote c = true) : isBlank c = false := by
  have hmark : c = '"' ∨ c = '\'' := by simpa [QuoteMarks.isQuote] using h
  rcases hmark with rfl | rfl <;> decide

theorem isQuote_of_isBlank {c : Char} (h : isBlank c = true) : QuoteMarks.isQuote c = false := by
  rw [Bool.eq_false_iff]
  intro hquote
  rw [isBlank_of_isQuote hquote] at h
  cases h

/-- A word without blanks stands at the same places outside quotations. -/
theorem occurrencesFrom_map_spaced {word : List Char} (hword : IsWord word)
    (previous : Option Char) {within : Option Char} (hwithin : ∀ mark ∈ within, isBlank mark = false)
    (text : List Char) :
    occurrencesFrom word (previous.map spaced) within (text.map spaced) =
      (occurrencesFrom word previous within text).map
        (Prod.map (Option.map spaced) (List.map spaced)) := by
  induction text generalizing previous within with
  | nil => rfl
  | cons c rest ih =>
    have hnone : ∀ mark ∈ (none : Option Char), isBlank mark = false := nofun
    rw [List.map_cons, occurrencesFrom.eq_def, occurrencesFrom.eq_def word]
    cases within with
    | some mark =>
      have hmark : isBlank mark = false := hwithin mark rfl
      simp only [spaced_eq_iff hmark]
      by_cases hc : c = mark
      · rw [if_pos hc]
        exact ih (some c) hnone
      · rw [if_neg hc]
        exact ih (some c) hwithin
    | none =>
      simp only [isQuote_spaced]
      by_cases hquote : QuoteMarks.isQuote c = true
      · have hblank := isBlank_of_isQuote hquote
        have hopen : ∀ mark ∈ some c, isBlank mark = false := by
          rintro mark ⟨⟩
          exact hblank
        rw [if_pos hquote, if_pos hquote, spaced_of_isBlank_eq_false hblank]
        -- The quotation ends at the same character, which is not blank as it is a quotation mark.
        have hrest := ih (some c) hopen
        rwa [Option.map_some, spaced_of_isBlank_eq_false hblank] at hrest
      · have hrest := ih (some c) hnone
        rw [Option.map_some] at hrest
        rw [if_neg hquote, if_neg hquote, ← List.map_cons, isPrefixOf_map_spaced hword, hrest]
        by_cases hfront : word.isPrefixOf (c :: rest) = true
        · simp only [if_pos hfront, List.map_cons, Prod.map_apply, List.map_drop]
        · rw [if_neg hfront, if_neg hfront]

/-- The assignment with spaces in the value. -/
def Assignment.spaced : Assignment → Assignment
  | value text => value (text.map Text.spaced)
  | assignment => assignment

theorem Assignment.read_of_ne {behind : List Char} (h : (trimStart behind).head? ≠ some '=') :
    read behind = .absent := by
  simp only [read]
  split
  · next heq =>
    rw [heq] at h
    exact absurd rfl h
  · rfl

theorem Assignment.read_map_spaced (behind : List Char) :
    read (behind.map Text.spaced) = (read behind).spaced := by
  by_cases hequals : (trimStart behind).head? = some '='
  · obtain ⟨text, htext⟩ := List.head?_eq_some_iff.1 hequals
    have htext' : trimStart (behind.map Text.spaced) = '=' :: text.map Text.spaced := by
      rw [trimStart_map_spaced, htext]
      rfl
    simp only [read, htext, htext', trimStart_map_spaced]
    cases trimStart text with
    | nil => rfl
    | cons mark body =>
      simp only [List.map_cons, isQuote_spaced]
      by_cases hquote : QuoteMarks.isQuote mark = true
      · have hblank := isBlank_of_isQuote hquote
        have hmem : mark ∈ body.map Text.spaced ↔ mark ∈ body := by
          simp only [List.mem_map, spaced_eq_iff hblank, exists_eq_right]
        simp only [hquote, if_true, spaced_of_isBlank_eq_false hblank, hmem,
          takeWhile_bne_map_spaced hblank]
        split <;> rfl
      · rw [if_neg hquote, if_neg hquote]
        rfl
  · have hequals' : (trimStart (behind.map Text.spaced)).head? ≠ some '=' := by
      rwa [trimStart_map_spaced, List.head?_map, Ne, map_spaced_eq_some_iff (by decide)]
    rw [read_of_ne hequals, read_of_ne hequals']
    rfl

/-- The same attribute is found, and its value is the same text with spaces. -/
theorem attribute?_map_spaced {name : List Char} (hname : IsWord name) (attributes : List Char) :
    attribute? name (attributes.map spaced) = (attribute? name attributes).map (List.map spaced) := by
  have hpreceding : ∀ previous : Option Char,
      mayPrecedeName (previous.map spaced) = mayPrecedeName previous := by
    intro previous
    cases previous with
    | none => rfl
    | some c => exact isGap_spaced c
  have hassign : (fun found : Option Char × List Char =>
        if mayPrecedeName found.1 then Assignment.read found.2 else .absent) ∘
          Prod.map (Option.map spaced) (List.map spaced) =
      Assignment.spaced ∘ fun found =>
        if mayPrecedeName found.1 then Assignment.read found.2 else .absent := by
    funext found
    simp only [Function.comp_apply, Prod.map_fst, Prod.map_snd, hpreceding,
      Assignment.read_map_spaced]
    split <;> rfl
  have hpresent : (· != Assignment.absent) ∘ Assignment.spaced = (· != Assignment.absent) := by
    funext assignment
    cases assignment <;> rfl
  have houtside : ∀ mark ∈ (none : Option Char), isBlank mark = false := nofun
  have hfound := occurrencesFrom_map_spaced hname none houtside attributes
  rw [Option.map_none] at hfound
  simp only [attribute?, occurrences, hfound, List.map_map]
  rw [hassign, ← List.map_map, List.find?_map, hpresent]
  generalize List.find? (· != Assignment.absent) _ = found?
  obtain _ | (_ | _ | _) := found? <;> rfl

end PenPlot
