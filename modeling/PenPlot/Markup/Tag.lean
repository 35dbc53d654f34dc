import PenPlot.Text.Blank
import PenPlot.Text.Quotation
import PenPlot.Text.Quoted
import PenPlot.Text.Utf8

/-!
# Tags

A document is text with tags in it. A tag begins at a `<` and ends at the next `>` that is not inside
a quotation opened in the tag; quotation marks between tags mean nothing. `Markup.scan` takes a text
apart into its tags, each with the text that leads up to it, and says how the text ends: with text
that holds no `<`, or with a tag that is never finished. Nothing is lost, as `text_scan` states, so a
list of tags with an ending is the same as the text, and the readers of elements work on tags alone.
-/

namespace PenPlot

open Text

/-- Why markup cannot be read. -/
inductive MarkupFlaw where
  /-- A quotation, the text from its mark on, is never closed. -/
  | unclosedQuotation (quotation : List Char)
  /-- A tag, the text from its `<` on, has no `>`. -/
  | missingTerminator (tag : List Char)
  /-- An element with that name has no close tag. -/
  | neverClosed (name : List Char)
  deriving DecidableEq, Repr

/-- The wording of a flaw. -/
def MarkupFlaw.message : MarkupFlaw → String
  | unclosedQuotation quotation => "quotation started but never ended: " ++ excerpt quotation
  | missingTerminator tag => "element is missing its terminator: " ++ excerpt tag
  | neverClosed name => "<" ++ String.ofList name ++ "> is never closed"

/-- A tag and the text before it. -/
structure Tag where
  /-- The text between the tag before and this one. -/
  lead : List Char
  /-- The text between the `<` and the `>`. -/
  inner : List Char
  deriving DecidableEq, Repr

/-- How a text ends behind its last tag. -/
inductive Ending where
  /-- With text that holds no `<`. -/
  | plain (text : List Char)
  /-- With a tag that is never finished. The text begins behind the last finished tag. -/
  | broken (text : List Char) (flaw : MarkupFlaw)
  deriving DecidableEq, Repr

/-- A text as a list of tags and an ending. -/
structure Markup where
  /-- The tags. -/
  tags : List Tag
  /-- What follows the last tag. -/
  ending : Ending
  deriving DecidableEq, Repr

/-- The tag as it is written, with the text before it. -/
def Tag.text (tag : Tag) : List Char := tag.lead ++ '<' :: tag.inner ++ ['>']

/-- The text of an ending. -/
def Ending.text : Ending → List Char
  | plain text => text
  | broken text _ => text

namespace Markup

/-- The text that the markup is. -/
def text (markup : Markup) : List Char := markup.tags.flatMap Tag.text ++ markup.ending.text

/-- The markup of the empty text. -/
def empty : Markup := ⟨[], .plain []⟩

/-- The markup with one more tag in front. -/
def push (tag : Tag) (markup : Markup) : Markup := { markup with tags := tag :: markup.tags }

/-- Behind a tag there is less text than in front of it. -/
theorem length_behind_lt {text body inner behind : List Char} {bracket : Char}
    (hb : text.dropWhile (· != '<') = bracket :: body)
    (hs : seek ['>'] body = .found inner behind) :
    (behind.drop 1).length < text.length := by
  have hle := (List.dropWhile_sublist (l := text) (· != '<')).length_le
  have hlt := congrArg List.length (seek_eq_found hs).1
  rw [hb, List.length_cons] at hle
  rw [List.length_append] at hlt
  rw [List.length_drop]
  omega

/-- The tags of a text. -/
def scan (text : List Char) : Markup :=
  match hb : text.dropWhile (· != '<') with
  | [] => ⟨[], .plain text⟩
  | bracket :: body =>
    match hs : seek ['>'] body with
    | .found inner behind =>
      have := length_behind_lt hb hs
      (scan (behind.drop 1)).push ⟨text.takeWhile (· != '<'), inner⟩
    | .absent => ⟨[], .broken text (.missingTerminator (bracket :: body))⟩
    | .unclosed quotation => ⟨[], .broken text (.unclosedQuotation quotation)⟩
termination_by text.length
decreasing_by assumption

/-- Scanning loses nothing. -/
theorem text_scan (text : List Char) : (scan text).text = text := by
  fun_induction scan text with
  | case1 text hb => simp [Markup.text, Ending.text]
  | case2 text bracket body hb inner behind hs _ ih =>
    obtain ⟨hbody, hne, hfront⟩ := seek_eq_found hs
    obtain ⟨tail, rfl⟩ : ∃ tail, behind = '>' :: tail := by
      cases behind with
      | nil => exact absurd rfl hne
      | cons c tail =>
        simp only [List.isPrefixOf, Bool.and_true, beq_iff_eq] at hfront
        exact ⟨tail, by rw [hfront]⟩
    have hbracket : bracket = '<' := by
      have h := List.head?_dropWhile_not (· != '<') text
      rw [hb] at h
      simpa using h
    have htext := List.takeWhile_append_dropWhile (p := (· != '<')) (l := text)
    rw [hb, hbracket, hbody] at htext
    simp only [List.drop_succ_cons, List.drop_zero] at ih
    have hpush : ∀ (tag : Tag) (markup : Markup), (push tag markup).text = tag.text ++ markup.text :=
      fun tag markup => by simp [Markup.text, push]
    rw [List.drop_succ_cons, List.drop_zero, hpush, ih]
    conv => rhs; rw [← htext]
    simp [Tag.text]
  | case3 text bracket body hb hs => simp [Markup.text, Ending.text]
  | case4 text bracket body hb quotation hs => simp [Markup.text, Ending.text]

end Markup

/-- The name that a tag begins with: what stands before the first blank, slash or `>`. The name of a
close tag keeps its slash and runs up to the first blank or `>` behind it. -/
def tagName (inner : List Char) : List Char :=
  match inner with
  | '/' :: behind => '/' :: behind.takeWhile fun c => !(isBlank c || c == '>')
  | _ => inner.takeWhile fun c => !(isBlank c || c == '/' || c == '>')

end PenPlot
