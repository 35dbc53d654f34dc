import PenPlot.Proofs.Cutting
import PenPlot.Proofs.Lookup
import PenPlot.Proofs.PathCutting

/-!
# Nothing is read out of range

All readers that cut texts by positions in bytes are put together here. Each of them has been shown to give
an answer, for every text, name and position that it can be asked with: none cuts a text behind its end or
inside a character, looks at an argument that a group does not have, lowers a count that is zero, or comes
to a case that is said not to occur. The answer is that of the reader over characters that this library
runs.

What is left is the walk through a document, which takes elements one by one and goes into those that are
visited, and the excerpts of messages.
-/

namespace PenPlot

open Text

namespace ByPosition

/-- The position of the character with a number of characters before it. -/
def charPosition? : Nat → List Char → Option Nat
  | _, [] => none
  | 0, _ :: _ => some 0
  | n + 1, c :: text => (charPosition? n text).map (c.utf8Size + ·)

/-- The beginning of the text, quoted, with three points behind it if something is cut off. -/
def excerpt (text : List Char) : Option String := do
  match charPosition? excerptLength text with
  | some i => return quoted (← upTo? i text) ++ "..."
  | none => return quoted text

theorem charPosition?_eq (n : Nat) (text : List Char) :
    charPosition? n text = if n < text.length then some (byteLength (text.take n)) else none := by
  induction text generalizing n with
  | nil => cases n <;> rfl
  | cons c text ih =>
    cases n with
    | zero => rfl
    | succ n =>
      rw [charPosition?, ih, List.length_cons, List.take_succ_cons, byteLength_cons]
      simp only [Nat.add_lt_add_iff_right]
      split <;> rfl

theorem excerpt_eq (text : List Char) : excerpt text = some (Text.excerpt text) := by
  rw [excerpt, charPosition?_eq, Text.excerpt]
  by_cases hlong : excerptLength < text.length
  · have hcut := upTo?_append (text.take excerptLength) (text.drop excerptLength)
    rw [List.take_append_drop] at hcut
    rw [if_pos hlong, if_pos hlong]
    show (upTo? _ text >>= _) = _
    rw [hcut]
    rfl
  · have hwhole : text.take excerptLength = text := List.take_of_length_le (Nat.le_of_not_lt hlong)
    rw [if_neg hlong, if_neg hlong, hwhole, String.append_empty]
    rfl

variable {α σ : Type} [Scalar α]

/-- The walk through the elements of a text in a scope. -/
def evaluate (sheet : Sheet α) (sink : Sink α σ) (scope : Scope α) (text : List Char)
    (progress : Progress α σ) : Option (EStateM.Result (Fault α) (Progress α σ) Unit) :=
  match _h : first text with
  | none => none
  | some (.error flaw) => some (.error (.markup flaw) progress)
  | some (.ok none) => some (.ok () progress)
  | some (.ok (some taken)) =>
    match (Walking.visit sheet sink scope taken.kind taken.attributes).run progress with
    | .error fault progress => some (.error fault progress)
    | .ok none progress => evaluate sheet sink scope taken.rest progress
    | .ok (some inner) progress => do
      match ← evaluate sheet sink inner taken.content progress with
      | .error fault progress => return .error fault progress
      | .ok () progress => evaluate sheet sink scope taken.rest progress
termination_by byteLength text
decreasing_by
  all_goals rw [first_eq] at _h
  · exact (IsReadNext.rest (Option.some.inj _h)).byteLength_lt
  · exact (IsReadNext.content (Option.some.inj _h)).byteLength_lt
  · exact (IsReadNext.rest (Option.some.inj _h)).byteLength_lt

/-- The walk comes to an end, and never to an end of the text among the elements. -/
theorem evaluate_eq (sheet : Sheet α) (sink : Sink α σ) (scope : Scope α) (text : List Char)
    (progress : Progress α σ) :
    evaluate sheet sink scope text progress =
      some ((Walking.visitAll sheet sink scope (.scan text)).run progress) := by
  induction text using wellFounded_isReadNext.induction generalizing scope progress with
  | _ text ih =>
    rw [evaluate, first_eq, Walking.visitAll_scan, Walking.visitFirst]
    cases htake : Taken.first? text with
    | error flaw => rfl
    | ok found? =>
      cases found? with
      | none => rfl
      | some taken =>
        -- What an element contains and what stands behind it are both shorter than the text.
        have hcontent := ih _ (.content htake)
        have hrest := ih _ (.rest htake)
        simp only [EStateM.run_bind]
        cases hvisit : (Walking.visit sheet sink scope taken.kind taken.attributes).run progress with
        | error fault next => rfl
        | ok inner? next =>
          cases inner? with
          | none => exact hrest scope next
          | some inner =>
            simp only
            rw [hcontent, some_bind, EStateM.run_bind]
            cases (Walking.visitAll sheet sink inner (.scan taken.content)).run next with
            | error fault later => rfl
            | ok _ later => exact hrest scope later

/-- The transform that a transform list gives. -/
def readList (text : List Char) : Option (Except TransformFlaw (Affine α)) :=
  calls .identity (skipSeparators text)

/-- No input makes a reader cut a text out of range or inside a character, look outside of a group of
arguments, lower a count below zero or come to a case that does not occur: each reader by positions gives
an answer, and it is the answer of the reader over characters. -/
theorem reads_in_range (sheet : Sheet α) (sink : Sink α σ) :
    (∀ needle haystack start,
      find needle haystack start = some (findByte needle haystack start)) ∧
    (∀ text, take text = some ((Taken.first? text).map Next.ofFirst)) ∧
    (∀ name body, closePositions name body 0 0 = some ((Markup.scan body).closePositions name)) ∧
    (∀ tag, tagName tag = some (PenPlot.tagName tag)) ∧
    (∀ name attributes, valueOf name attributes 0 = some (attribute? name attributes)) ∧
    (∀ source, prepare source = some (Source.prepare source)) ∧
    (∀ text (default : α), readLength text default = some (PenPlot.readLength text default)) ∧
    (∀ text questions,
      (Cursor.start text).answers (α := α) questions = some (Question.answers questions text)) ∧
    (∀ text, (Cursor.start text).numbers (α := α) = some (readNumbers text)) ∧
    (∀ data, readInstructions (skipSeparators data) = some (PathInstruction.readAll data)) ∧
    (∀ (state : PathState α) data, run state data = some (state.run data)) ∧
    (∀ raw, readList (α := α) raw = some (Affine.readList raw)) ∧
    (∀ text, excerpt text = some (Text.excerpt text)) ∧
    ∀ scope text progress, evaluate sheet sink scope text progress =
      some ((Walking.visitAll sheet sink scope (.scan text)).run progress) :=
  ⟨find_eq, take_eq, closePositions_eq, tagName_eq, valueOf_eq, prepare_eq, readLength_eq,
    fun text => (Cursor.at_start text).answers, fun text => (Cursor.at_start text).numbers,
    readInstructions_eq, run_eq, fun _ => calls_eq _ _, excerpt_eq, evaluate_eq sheet sink⟩

end ByPosition

end PenPlot
